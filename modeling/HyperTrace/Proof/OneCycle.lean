import HyperTrace.Proof.Collecting
import HyperTrace.Proof.Kubelet

/-!
# One cycle, call by call

The pipeline takes a cycle of a collector as one step, which knows what the API server
answers, one time for the whole cycle, and how many publishes succeed. Here that step is
tied to the thread: if its calls are answered just so, the thread publishes what the step
puts into the queue and is left with the cache of the step.
-/

namespace HyperTrace.Collector.Agent

open Effect

variable {K : Type}

theorem objectName_ext {n n' : ObjectName} (h : n.text = n'.text) : n = n' := by
  cases n
  cases n'
  cases h
  rfl

/-! ## The two caches -/

/-- The key under which the thread caches a pod. -/
def keyOf (k : ObjectName × ObjectName) : Key := (some k.1.text, k.2.text)

theorem keyOf_injective : Function.Injective keyOf := by
  intro k k' h
  obtain ⟨hns, hpod⟩ := Prod.mk.inj h
  exact Prod.ext (objectName_ext (Option.some.inj hns)) (objectName_ext hpod)

/-- The thread has cached the same about every pod that Kubernetes can have. -/
def Mirrors (entries : Entries) (cache : Cache) : Prop :=
  ∀ k, entries (keyOf k) = (cache k).map fun e => (e.1.text, e.2)

theorem Mirrors.update {entries : Entries} {cache : Cache} (hm : Mirrors entries cache)
    (k : ObjectName × ObjectName) (workload : ObjectName) (now : Time) :
    Mirrors (Function.update entries (keyOf k) (some (workload.text, now)))
      (fun k' => if k' = k then some (workload, now) else cache k') := by
  intro k'
  dsimp only
  by_cases hk : k' = k
  · subst hk
    rw [Function.update_self, if_pos rfl]
    rfl
  · rw [Function.update_of_ne fun heq => hk (keyOf_injective heq), if_neg hk]
    exact hm k'

theorem Mirrors.prune {entries : Entries} {cache : Cache} (hm : Mirrors entries cache)
    (liveKeys : List (ObjectName × ObjectName)) :
    Mirrors (prune (liveKeys.map keyOf) entries) (Collector.prune liveKeys cache) := by
  intro k
  have hmem : keyOf k ∈ liveKeys.map keyOf ↔ k ∈ liveKeys :=
    List.mem_map_of_injective keyOf_injective
  unfold Agent.prune Collector.prune
  by_cases hk : k ∈ liveKeys
  · rw [if_pos (hmem.mpr hk), if_pos hk, hm k]
  · rw [if_neg fun h => hk (hmem.mp h), if_neg hk]
    rfl

theorem Mirrors.prune_parsed {entries : Entries} {cache : Cache} (hm : Mirrors entries cache)
    {es : List (Entry K)} {pods : List (PodUsage K)} (hof : List.Forall₂ Entry.Of es pods) :
    Mirrors (Agent.prune ((es.map Entry.parsed).map fun p => (p.namespace_, p.pod)) entries)
      (Collector.prune (pods.map fun p => (p.namespace_, p.pod)) cache) := by
  have hkeys : (es.map Entry.parsed).map (fun p => (p.namespace_, p.pod))
      = (pods.map fun p => (p.namespace_, p.pod)).map keyOf :=
    List.map_map.trans (entries_keys hof)
  rw [hkeys]
  exact hm.prune _

/-! ## The step -/

section

variable (api : OwnerApi) (cluster node : String) (now : Time) (usage : Usage K) (cache : Cache)
variable {pods : List (PodUsage K)} {left : Nat}

theorem length_collectPods (pods : List (PodUsage K)) (cache : Cache) :
    (collectPods api cluster node now pods cache).1.length = pods.length := by
  induction pods generalizing cache with
  | nil => rfl
  | cons p pods ih => exact congrArg (· + 1) (ih _)

theorem collectOnce_metrics (pods : List (PodUsage K)) (left : Nat) :
    (Collector.collectOnce api cluster node now usage pods (left + 1) cache).1
      = metric now (nodeResource cluster node) usage
        :: (collectPods api cluster node now (pods.take (left + 1)) cache).1.take left := by
  unfold Collector.collectOnce
  dsimp only
  split
  · rw [List.take_succ_cons]
  · rw [List.take_of_length_le (l := (collectPods ..).1)
      (by rw [length_collectPods, List.length_take]; omega)]

/-- A cycle that a publish ends prunes nothing. -/
theorem collectOnce_cut (h : left < pods.length) :
    (Collector.collectOnce api cluster node now usage pods (left + 1) cache).2
      = (collectPods api cluster node now (pods.take (left + 1)) cache).2 := by
  unfold Collector.collectOnce
  rw [if_pos (by omega)]

theorem collectOnce_whole (h : pods.length ≤ left) :
    (Collector.collectOnce api cluster node now usage pods (left + 1) cache).2
      = Collector.prune (pods.map fun p => (p.namespace_, p.pod))
        (collectPods api cluster node now (pods.take (left + 1)) cache).2 := by
  unfold Collector.collectOnce
  rw [if_neg (by omega)]

end

/-! ## The answers -/

def Owner.of (o : OwnerReference) : Owner := ⟨o.kind, o.name.text⟩

/--
Every call is answered as the step has it: the API server says what `api` says, the clocks
stand still, and no more than `limit` metrics can be published.
-/
def steady (api : OwnerApi) (summary : StatsSummary) (now : Time) (limit : Nat) :
    Discipline (Op K) Op.Res Err where
  may _ _ := True
  gives t o :=
    match o with
    | .monotonic => fun r => r = .ok now
    | .sleep _ => fun _ => True
    | .fetchStatsSummary => fun r => r = .ok summary
    | .now => fun r => r = .ok now
    | .readNamespacedPod name ns => fun r => ∀ n ns', name = n.text → ns = some ns'.text →
        r = (api.pod n ns').map (List.map Owner.of)
    | .readNamespacedReplicaSet name ns => fun r => ∀ n ns', name = n.text → ns = some ns'.text →
        r = (api.replicaSet n ns').map (List.map Owner.of)
    | .publish _ => fun r => r.isOk ↔ (publishedIn t).length < limit

section

variable {api : OwnerApi} {summary : StatsSummary} {now : Time} {limit : Nat}
variable {h : List (AgentCall K)} {entries : Entries} {cache : Cache}

theorem publishedIn_other {c : AgentCall K} (hc : published c = none) :
    publishedIn (c :: h) = publishedIn h := by
  rw [publishedIn, List.reverse_cons, List.filterMap_append, List.filterMap_cons_none hc]
  exact List.append_nil _

theorem publishedIn_publish (metric : MetricEvent K) (r : (Op.publish metric).Res) :
    publishedIn ((⟨.publish metric, .ok r⟩ : AgentCall K) :: h) = publishedIn h ++ [metric] := by
  rw [publishedIn, List.reverse_cons, List.filterMap_append]
  rfl

/-- What a lookup comes to before its handler: the workload, or an exception if it is the pod. -/
def Looked (api : OwnerApi) (ns pod : ObjectName) (h : List (AgentCall K)) (entries : Entries) :
    List (AgentCall K) → Except Err String → Entries → Prop :=
  Method.post
    (fun t workload s => s = entries ∧ publishedIn t = publishedIn h
      ∧ workload = (Collector.lookup api ns pod).text)
    fun t _ s => s = entries ∧ publishedIn t = publishedIn h ∧ Collector.lookup api ns pod = pod

/-- The second read, for a pod that a ReplicaSet owns. -/
theorem replicaSet_steady {ns pod : ObjectName} {owner : OwnerReference}
    {rest : List OwnerReference} {t : List (AgentCall K)}
    (hpod : api.pod pod ns = .ok (owner :: rest)) (hkind : owner.kind = "ReplicaSet")
    (ht : publishedIn t = publishedIn h) :
    Method.Obeys (steady api summary now limit) (Looked api ns pod h entries) t entries (do
      let rsOwners ← call (.readNamespacedReplicaSet owner.name.text (some ns.text))
      pure (((List.head? rsOwners).map Owner.name).getD owner.name.text)) := by
  refine Method.Obeys.call trivial (fun owners hgives => ?_) fun e hgives => ?_
  · have hset := hgives owner.name ns rfl rfl
    cases hread : api.replicaSet owner.name ns with
    | error e => rw [hread] at hset; cases hset
    | ok refs =>
        rw [hread] at hset
        cases hset
        refine ⟨rfl, (publishedIn_other rfl).trans ht, ?_⟩
        cases refs <;> simp [Collector.lookup, hpod, hkind, hread, Owner.of]
  · have hset := hgives owner.name ns rfl rfl
    cases hread : api.replicaSet owner.name ns with
    | ok refs => rw [hread] at hset; cases hset
    | error e =>
        exact ⟨rfl, (publishedIn_other rfl).trans ht,
          by simp [Collector.lookup, hpod, hkind, hread]⟩

theorem lookup_steady (ns pod : ObjectName) :
    Method.Obeys (steady api summary now limit)
      (fun t r s => s = entries ∧ publishedIn t = publishedIn h
        ∧ r = .ok (Collector.lookup api ns pod).text)
      h entries (lookup (some ns.text) pod.text) := by
  refine Method.Obeys.tryCatch (R := Looked api ns pod h entries) ?_ ?_ ?_
  · refine Method.Obeys.call trivial (fun owners hgives => ?_) fun e hgives => ?_
    · have hpod := hgives pod ns rfl rfl
      cases hread : api.pod pod ns with
      | error e => rw [hread] at hpod; cases hpod
      | ok refs =>
          rw [hread] at hpod
          cases hpod
          cases refs with
          | nil => exact ⟨rfl, publishedIn_other rfl, by simp [Collector.lookup, hread]⟩
          | cons owner rest =>
              by_cases hkind : owner.kind = "ReplicaSet"
              · simp only [List.map_cons, List.head?_cons, Owner.of, if_pos hkind]
                exact replicaSet_steady hread hkind (publishedIn_other rfl)
              · simp only [List.map_cons, List.head?_cons, Owner.of, if_neg hkind]
                exact ⟨rfl, publishedIn_other rfl, by simp [Collector.lookup, hread, hkind]⟩
    · have hpod := hgives pod ns rfl rfl
      cases hread : api.pod pod ns with
      | ok refs => rw [hread] at hpod; cases hpod
      | error e => exact ⟨rfl, publishedIn_other rfl, by simp [Collector.lookup, hread]⟩
  · rintro t workload s ⟨hs, ht, rfl⟩
    exact ⟨hs, ht, rfl⟩
  · rintro t e s ⟨hs, ht, hown⟩
    exact ⟨hs, ht, by rw [hown]⟩

theorem lookUp_steady {t : List (AgentCall K)} (hm : Mirrors entries cache) (ns pod : ObjectName)
    (ht : publishedIn t = publishedIn h) :
    Method.Obeys (steady api summary now limit)
      (fun t r s => publishedIn t = publishedIn h
        ∧ r = .ok (Collector.lookup api ns pod).text
        ∧ Mirrors s fun k => if k = (ns, pod) then some (Collector.lookup api ns pod, now)
          else cache k)
      t entries (lookUp (some ns.text) pod.text now) := by
  refine Method.Obeys.bind (lookup_steady ns pod) ?_ ?_
  · rintro t' workload s ⟨rfl, ht', hw⟩
    cases hw
    exact ⟨ht'.trans ht, rfl, hm.update (ns, pod) _ now⟩
  · rintro t' e s ⟨-, -, hw⟩
    cases hw

theorem resolve_steady (hm : Mirrors entries cache) (ns pod : ObjectName) :
    Method.Obeys (steady api summary now limit)
      (fun t r s => publishedIn t = publishedIn h
        ∧ r = .ok (Collector.resolve api cache now ns pod).1.text
        ∧ Mirrors s (Collector.resolve api cache now ns pod).2)
      h entries (resolve (some ns.text) pod.text) := by
  have hentry : entries (some ns.text, pod.text) = _ := hm (ns, pod)
  unfold resolve
  refine Method.obeys_get_bind.mpr ?_
  refine Method.Obeys.call (o := Op.monotonic) trivial ?_ ?_
  · intro (clock : ℤ) hclock
    cases hclock
    by_cases hfresh : Fresh cache now ns pod
    · obtain ⟨workload, seenAt, hc, hyoung⟩ := hfresh
      rw [resolve_of_entry api hc hyoung]
      rw [hc] at hentry
      simp only [hentry, Option.map_some, if_pos hyoung]
      exact ⟨publishedIn_other rfl, rfl, hm⟩
    · rw [resolve_of_not_fresh api hfresh]
      cases hc : cache (ns, pod) with
      | none =>
          rw [hc] at hentry
          simp only [hentry, Option.map_none]
          exact lookUp_steady hm ns pod (publishedIn_other rfl)
      | some entry =>
          obtain ⟨workload, seenAt⟩ := entry
          have hold : ¬ now - seenAt < cacheTtl :=
            fun hyoung => hfresh ⟨workload, seenAt, hc, hyoung⟩
          rw [hc] at hentry
          simp only [hentry, Option.map_some, if_neg hold]
          exact lookUp_steady hm ns pod (publishedIn_other rfl)
  · intro e hclock
    cases hclock

/-- What the loop over the pods comes to when `left` more metrics can be published. -/
structure Published (cluster node : String) (api : OwnerApi) (now : Time) (left : Nat)
    (pods : List (PodUsage K)) (cache : Cache) (h t : List (AgentCall K)) (r : Except Err Unit)
    (entries : Entries) : Prop where
  metrics : (publishedIn t).map MetricEvent.read = (publishedIn h).map MetricEvent.read
    ++ (collectPods api cluster node now (pods.take (left + 1)) cache).1.take left
  cached : Mirrors entries (collectPods api cluster node now (pods.take (left + 1)) cache).2
  result : r.isOk ↔ pods.length ≤ left

theorem publishPods_steady {cluster node : String} {es : List (Entry K)} {pods : List (PodUsage K)}
    (hof : List.Forall₂ Entry.Of es pods) :
    ∀ {h : List (AgentCall K)} {entries : Entries} {cache : Cache} (left : Nat),
      Mirrors entries cache → limit = (publishedIn h).length + left →
      Method.Obeys (steady api summary now limit) (Published cluster node api now left pods cache h)
        h entries (publishPods cluster node now (es.map Entry.parsed)) := by
  induction hof with
  | nil =>
      intro h entries cache left hm hlimit
      exact ⟨by simp [collectPods], hm, by simp [Except.isOk, Except.toBool]⟩
  | @cons e p es pods hp hof ih =>
      intro h entries cache left hm hlimit
      obtain ⟨hns, hpod, husage⟩ := hp
      simp only [List.map_cons, Entry.parsed, publishPods, hns, hpod]
      refine Method.Obeys.bind (resolve_steady (h := h) hm p.namespace_ p.pod) ?_ ?_
      · rintro t service s ⟨ht, hservice, hcached⟩
        cases hservice
        refine Method.Obeys.call trivial (fun _ hgives => ?_) fun e hgives => ?_
        · have hmore : (publishedIn t).length < limit := hgives.mp rfl
          obtain ⟨left, rfl⟩ : ∃ n, left = n + 1 := ⟨left - 1, by rw [ht] at hmore; omega⟩
          refine (ih left hcached ?_).mono fun t' r s' hpub => ?_
          · rw [publishedIn_publish, List.length_append, ht, hlimit]
            simp only [List.length_singleton]
            omega
          · refine ⟨?_, ?_, ?_⟩
            · rw [hpub.metrics, publishedIn_publish, ht]
              simp [collectPods, MetricEvent.read, podResource, husage]
            · exact hpub.cached
            · rw [hpub.result, List.length_cons]
              omega
        · have hmore : ¬ (publishedIn t).length < limit := fun hlt => by cases hgives.mpr hlt
          obtain rfl : left = 0 := by rw [ht] at hmore; omega
          refine ⟨?_, ?_, ?_⟩
          · rw [publishedIn_other rfl, ht]
            simp
          · exact hcached
          · simp [Except.isOk, Except.toBool]
      · rintro t e s ⟨-, hw, -⟩
        cases hw

variable [Scalar K] {cluster node : String} {pods : List (PodUsage K)}

/-- The thread has done what the step does of which `n` publishes succeed. -/
structure Steps (cluster node : String) (api : OwnerApi) (now : Time) (summary : StatsSummary)
    (pods : List (PodUsage K)) (n : Nat) (cache : Cache) (h t : List (AgentCall K))
    (entries : Entries) : Prop where
  metrics : (publishedIn t).map MetricEvent.read = (publishedIn h).map MetricEvent.read
    ++ (Collector.collectOnce api cluster node now summary.nodeUsage.read pods n cache).1
  cached : Mirrors entries
    (Collector.collectOnce api cluster node now summary.nodeUsage.read pods n cache).2

/-- The rest of a cycle that has published the metric of the node. -/
theorem pods_steady {t : List (AgentCall K)} {left : Nat} (hregular : summary.Regular)
    (hof : List.Forall₂ Entry.Of summary.entries pods) (hm : Mirrors entries cache)
    (ht : publishedIn t = publishedIn h ++ [nodeMetric cluster node now summary.nodeUsage])
    (hlimit : limit = (publishedIn h).length + (left + 1)) :
    Method.Obeys (steady api summary now limit)
      (fun t _ s => Steps cluster node api now summary pods (left + 1) cache h t s) t entries (do
        let pods ← Method.ofExcept (parsePodMetrics summary)
        publishPods cluster node now pods
        modify (prune (pods.map fun p => (p.namespace_, p.pod)))) := by
  have hparse := parsePodMetrics_of_regular (K := K) hregular
  have hmetrics : ∀ {t' r s}, Published cluster node api now left pods cache t t' r s →
      (publishedIn t').map MetricEvent.read = (publishedIn h).map MetricEvent.read
        ++ (Collector.collectOnce api cluster node now summary.nodeUsage.read pods (left + 1)
          cache).1 := by
    intro t' r s hpub
    rw [hpub.metrics, ht, List.map_append, List.append_assoc, collectOnce_metrics]
    rfl
  refine Method.obeys_ofExcept_bind (fun parsed hparsed => ?_) fun e he => ?_
  · cases hparse.symm.trans hparsed
    refine Method.Obeys.bind (publishPods_steady hof left hm ?_) ?_ ?_
    · rw [ht, List.length_append, List.length_singleton, hlimit]
      omega
    · intro t' _ s hpub
      refine ⟨hmetrics hpub, ?_⟩
      rw [collectOnce_whole _ _ _ _ _ _ (hpub.result.mp rfl)]
      exact hpub.cached.prune_parsed hof
    · intro t' e s hpub
      have hmore : ¬ pods.length ≤ left := fun hle => by cases hpub.result.mpr hle
      refine ⟨hmetrics hpub, ?_⟩
      rw [collectOnce_cut _ _ _ _ _ _ (by omega)]
      exact hpub.cached
  · cases hparse.symm.trans he

/--
**The step of the pipeline is the cycle of the thread.** If its calls are answered as the step
has it, then the thread publishes what the step does and caches what the step does, whichever
publish fails.
-/
theorem collectOnce_steady {n : Nat} (hregular : summary.Regular)
    (hof : List.Forall₂ Entry.Of summary.entries pods) (hm : Mirrors entries cache)
    (hlimit : limit = (publishedIn h).length + n) :
    Method.Obeys (steady api summary now limit)
      (fun t _ s => Steps cluster node api now summary pods n cache h t s) h entries
      (collectOnce cluster node) := by
  have hnode := parseNodeMetrics_of_regular (K := K) hregular.node hregular.stats
  refine Method.Obeys.call (o := Op.fetchStatsSummary) trivial ?_ fun e hgives => by cases hgives
  intro (fetched : StatsSummary) hgives
  cases hgives
  refine Method.Obeys.call (o := Op.now) trivial ?_ fun e hgives => by cases hgives
  intro (read : Time) hgives
  cases hgives
  have hnone : publishedIn ((⟨.now, .ok now⟩ : AgentCall K)
      :: ⟨.fetchStatsSummary, .ok summary⟩ :: h) = publishedIn h :=
    (publishedIn_other rfl).trans (publishedIn_other rfl)
  refine Method.obeys_ofExcept_bind (fun usage husage => ?_) fun e he => ?_
  · cases hnode.symm.trans husage
    refine Method.Obeys.call (o := Op.publish (nodeMetric cluster node now summary.nodeUsage))
      trivial ?_ ?_
    · intro r hgives
      have hlt := hgives.mp rfl
      rw [hnone, hlimit] at hlt
      obtain ⟨left, rfl⟩ : ∃ left, n = left + 1 := ⟨n - 1, by omega⟩
      exact pods_steady hregular hof hm
        ((publishedIn_publish _ r).trans (congrArg (· ++ [_]) hnone)) hlimit
    · intro e hgives
      have hlt : ¬ _ := fun hlt => by cases hgives.mpr hlt
      rw [hnone, hlimit] at hlt
      obtain rfl : n = 0 := by omega
      refine ⟨?_, ?_⟩
      · rw [publishedIn_other rfl, hnone]
        simp [Collector.collectOnce]
      · simpa [Collector.collectOnce, collectPods] using hm
  · cases hnode.symm.trans he

end

end HyperTrace.Collector.Agent
