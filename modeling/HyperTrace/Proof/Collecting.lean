import HyperTrace.Collector.Agent

/-!
# What the collecting thread publishes

In any run of the thread, however long and whatever fails, each metric is one that the cycle
makes of the summary fetched last, stamped with the time read right after it; and the
workload it names for a pod is what the API server answered in a lookup that was made just
now, or less than the TTL ago. What the cache holds is always backed by such a lookup.
-/

namespace HyperTrace.Collector.Agent

open Effect

variable {K : Type}

abbrev AgentCall (K : Type) := Call (Op K) Op.Res Err

/-- What the API server answered about a pod, newest call first, makes this its workload. -/
inductive Answers (ns : Option String) (pod : String) : List (AgentCall K) → String → Prop where
  | podFails (e : Err) : Answers ns pod [⟨.readNamespacedPod pod ns, .error e⟩] pod
  | bare : Answers ns pod [⟨.readNamespacedPod pod ns, .ok []⟩] pod
  | owned {owner : Owner} (rest : List Owner) (hkind : owner.kind ≠ "ReplicaSet") :
      Answers ns pod [⟨.readNamespacedPod pod ns, .ok (owner :: rest)⟩] owner.name
  | replicaSetFails {owner : Owner} (rest : List Owner) (hkind : owner.kind = "ReplicaSet")
      (e : Err) :
      Answers ns pod [⟨.readNamespacedReplicaSet owner.name ns, .error e⟩,
        ⟨.readNamespacedPod pod ns, .ok (owner :: rest)⟩] pod
  | replicaSet {owner : Owner} (rest : List Owner) (hkind : owner.kind = "ReplicaSet")
      (rsOwners : List Owner) :
      Answers ns pod [⟨.readNamespacedReplicaSet owner.name ns, .ok rsOwners⟩,
        ⟨.readNamespacedPod pod ns, .ok (owner :: rest)⟩]
        ((rsOwners.head?.map Owner.name).getD owner.name)

/-- At the end of the history the workload was looked up, the clock showing `seenAt`. -/
def LookedUp (ns : Option String) (pod workload : String) (seenAt : ℤ)
    (h : List (AgentCall K)) : Prop :=
  ∃ found earlier, h = found ++ ⟨.monotonic, .ok seenAt⟩ :: earlier ∧ Answers ns pod found workload

/-- Every entry of the cache was looked up when it says. -/
def Backed (h : List (AgentCall K)) (cache : Entries) : Prop :=
  ∀ ns pod workload seenAt, cache (ns, pod) = some (workload, seenAt) →
    ∃ h', h' <:+ h ∧ LookedUp ns pod workload seenAt h'

/-- The workload was looked up for the pod just now, or less than the TTL ago. -/
inductive Known (ns : Option String) (pod workload : String) : List (AgentCall K) → Prop where
  | asked {seenAt : ℤ} {h : List (AgentCall K)} (hl : LookedUp ns pod workload seenAt h) :
      Known ns pod workload h
  | cached {now seenAt : ℤ} {h h' : List (AgentCall K)} (hh : h' <:+ h)
      (hl : LookedUp ns pod workload seenAt h') (hyoung : now - seenAt < cacheTtl) :
      Known ns pod workload (⟨.monotonic, .ok now⟩ :: h)

theorem Backed.cons {h : List (AgentCall K)} {cache : Entries} (hb : Backed h cache)
    (c : AgentCall K) : Backed (c :: h) cache := by
  intro ns pod workload seenAt hentry
  obtain ⟨h', hsuf, hl⟩ := hb ns pod workload seenAt hentry
  exact ⟨h', hsuf.trans (List.suffix_cons c h), hl⟩

theorem Backed.append {h : List (AgentCall K)} {cache : Entries} (hb : Backed h cache) :
    ∀ l : List (AgentCall K), Backed (l ++ h) cache
  | [] => hb
  | c :: l => (hb.append l).cons c

theorem Backed.update {h : List (AgentCall K)} {cache : Entries} {ns : Option String}
    {pod workload : String} {seenAt : ℤ} (hb : Backed h cache)
    (hl : LookedUp ns pod workload seenAt h) :
    Backed h (Function.update cache (ns, pod) (some (workload, seenAt))) := by
  intro ns' pod' workload' seenAt' hentry
  by_cases hkey : (ns', pod') = (ns, pod)
  · rw [hkey, Function.update_self] at hentry
    cases hkey
    cases hentry
    exact ⟨h, List.suffix_refl h, hl⟩
  · rw [Function.update_of_ne hkey] at hentry
    exact hb ns' pod' workload' seenAt' hentry

theorem Backed.prune {h : List (AgentCall K)} {cache : Entries} (hb : Backed h cache)
    (liveKeys : List Key) : Backed h (prune liveKeys cache) := by
  intro ns pod workload seenAt hentry
  unfold Agent.prune at hentry
  split at hentry
  · exact hb ns pod workload seenAt hentry
  · cases hentry

/-! ## The resolver -/

/-- A call of the resolver. -/
def isRead : Op K → Bool
  | .monotonic | .readNamespacedPod _ _ | .readNamespacedReplicaSet _ _ => true
  | _ => false

section

variable {D : Discipline (Op K) Op.Res Err} {h : List (AgentCall K)} {cache : Entries}

theorem lookup_obeys (hmay : ∀ t o, isRead o = true → D.may t o) (ns : Option String)
    (pod : String) :
    Method.Obeys D (fun t r s => s = cache ∧ ∃ found workload, r = .ok workload
      ∧ t = found ++ h ∧ Answers ns pod found workload) h cache (lookup ns pod) := by
  refine Method.Obeys.tryCatch (R := Method.post
    (fun t workload s => s = cache ∧ ∃ found, t = found ++ h ∧ Answers ns pod found workload)
    fun t _ s => s = cache ∧ ∃ found, t = found ++ h ∧ Answers ns pod found pod) ?_ ?_ ?_
  · refine Method.Obeys.call (hmay _ _ rfl) (fun owners _ => ?_)
      fun e _ => ⟨rfl, [_], rfl, .podFails e⟩
    cases owners with
    | nil => exact ⟨rfl, [_], rfl, .bare⟩
    | cons owner rest =>
        by_cases hkind : owner.kind = "ReplicaSet"
        · simp only [List.head?_cons, if_pos hkind]
          exact Method.Obeys.call (hmay _ _ rfl)
            (fun rsOwners _ => ⟨rfl, [_, _], rfl, .replicaSet rest hkind rsOwners⟩)
            fun e _ => ⟨rfl, [_, _], rfl, .replicaSetFails rest hkind e⟩
        · simp only [List.head?_cons, if_neg hkind]
          exact ⟨rfl, [_], rfl, .owned rest hkind⟩
  · intro t workload s hr
    obtain ⟨hs, found, ht, hans⟩ := hr
    exact ⟨hs, found, workload, rfl, ht, hans⟩
  · intro t e s hr
    obtain ⟨hs, found, ht, hans⟩ := hr
    exact ⟨hs, found, pod, rfl, ht, hans⟩

theorem Answers.reads {ns : Option String} {pod workload : String} {found : List (AgentCall K)}
    (ha : Answers ns pod found workload) : ∀ c ∈ found, isRead c.op = true := by
  cases ha <;> simp [isRead]

/-- What a resolve comes to: it has only read, and what it returns is known. -/
structure Resolved (ns : Option String) (pod : String) (h t : List (AgentCall K))
    (r : Except Err String) (cache : Entries) : Prop where
  reads : ∃ since, t = since ++ h ∧ ∀ c ∈ since, isRead c.op = true
  backed : Backed t cache
  known : ∀ workload, r = .ok workload → Known ns pod workload t

theorem lookUp_obeys (hmay : ∀ t o, isRead o = true → D.may t o) (ns : Option String)
    (pod : String) (now : ℤ) (hb : Backed h cache) :
    Method.Obeys D (Resolved ns pod h) (⟨.monotonic, .ok now⟩ :: h) cache
      (lookUp ns pod now) := by
  refine Method.Obeys.bind (lookup_obeys hmay ns pod) ?_ ?_
  · intro t workload s hr
    obtain ⟨rfl, found, _, hw, rfl, hans⟩ := hr
    cases hw
    have hl : LookedUp ns pod workload now (found ++ ⟨.monotonic, .ok now⟩ :: h) :=
      ⟨found, h, rfl, hans⟩
    refine ⟨⟨found ++ [⟨.monotonic, .ok now⟩], by simp, ?_⟩, ?_, ?_⟩
    · intro c hc
      rcases List.mem_append.mp hc with hc | hc
      · exact hans.reads c hc
      · rw [List.mem_singleton.mp hc]
        rfl
    · exact ((hb.cons _).append found).update hl
    · intro w hw
      cases hw
      exact .asked hl
  · intro t e s hr
    obtain ⟨-, _, _, hw, -⟩ := hr
    cases hw

theorem resolve_obeys (hmay : ∀ t o, isRead o = true → D.may t o) (ns : Option String)
    (pod : String) (hb : Backed h cache) :
    Method.Obeys D (Resolved ns pod h) h cache (resolve ns pod) := by
  refine Method.Obeys.call (o := .monotonic) (hmay _ _ rfl) ?_ ?_
  · intro (now : ℤ) _
    cases hc : cache (ns, pod) with
    | none => exact lookUp_obeys hmay ns pod now hb
    | some entry =>
        obtain ⟨workload, seenAt⟩ := entry
        change Method.Obeys D _ _ cache
          (if now - seenAt < cacheTtl then pure workload else lookUp ns pod now)
        by_cases hyoung : now - seenAt < cacheTtl
        · rw [if_pos hyoung]
          refine ⟨⟨[_], rfl, fun c hcall => ?_⟩, hb.cons _, fun w hw => ?_⟩
          · rw [List.mem_singleton.mp hcall]
            rfl
          · cases hw
            obtain ⟨h', hsuf, hl⟩ := hb ns pod workload seenAt hc
            exact .cached hsuf hl hyoung
        · rw [if_neg hyoung]
          exact lookUp_obeys hmay ns pod now hb
  · intro e _
    refine ⟨⟨[_], rfl, fun c hcall => ?_⟩, hb.cons _, fun w hw => by cases hw⟩
    rw [List.mem_singleton.mp hcall]
    rfl

end

/-! ## A cycle -/

/-- The metric that the call published. -/
def published : AgentCall K → Option (MetricEvent K)
  | ⟨.publish metric, .ok _⟩ => some metric
  | _ => none

/-- What was published in the history, oldest first. -/
def publishedIn (h : List (AgentCall K)) : List (MetricEvent K) := h.reverse.filterMap published

/-- Of the cycle that has fetched the summary and read the time, the metrics published so far. -/
def Cycling (summary : StatsSummary) (now : Time) (metrics : List (MetricEvent K))
    (h : List (AgentCall K)) : Prop :=
  ∃ since past, h = since ++ ⟨.now, .ok now⟩ :: ⟨.fetchStatsSummary, .ok summary⟩ :: past
    ∧ (∀ c ∈ since, c.op ≠ .fetchStatsSummary) ∧ publishedIn since = metrics

theorem publishedIn_reads {since : List (AgentCall K)}
    (hreads : ∀ c ∈ since, isRead c.op = true) : publishedIn since = [] := by
  refine List.filterMap_eq_nil_iff.mpr fun c hc => ?_
  have hread := hreads c (List.mem_reverse.mp hc)
  obtain ⟨o, r⟩ := c
  cases o with
  | publish m => cases hread
  | _ => rfl

theorem Cycling.reads {summary : StatsSummary} {now : Time} {metrics : List (MetricEvent K)}
    {h since : List (AgentCall K)} (hc : Cycling summary now metrics h)
    (hreads : ∀ c ∈ since, isRead c.op = true) : Cycling summary now metrics (since ++ h) := by
  obtain ⟨since', past, rfl, hfetch, rfl⟩ := hc
  refine ⟨since ++ since', past, by simp, fun c hmem => ?_, ?_⟩
  · rcases List.mem_append.mp hmem with hmem | hmem
    · intro hop
      have hread := hreads c hmem
      rw [hop] at hread
      cases hread
    · exact hfetch c hmem
  · rw [publishedIn, List.reverse_append, List.filterMap_append]
    exact (congrArg (publishedIn since' ++ ·) (publishedIn_reads hreads)).trans
      (List.append_nil _)

theorem Cycling.publish {summary : StatsSummary} {now : Time} {metrics : List (MetricEvent K)}
    {h : List (AgentCall K)} (hc : Cycling summary now metrics h) (metric : MetricEvent K) :
    Cycling summary now (metrics ++ [metric]) (⟨.publish metric, .ok ()⟩ :: h) := by
  obtain ⟨since, past, rfl, hfetch, rfl⟩ := hc
  refine ⟨_ :: since, past, rfl, fun c hmem => ?_, ?_⟩
  · rcases List.mem_cons.mp hmem with rfl | hmem
    · intro hop
      cases hop
    · exact hfetch c hmem
  · rw [publishedIn, List.reverse_cons, List.filterMap_append]
    rfl

/-- The resolver that answers the given names, one after the other. -/
def playback : Resolver (List String) where
  resolve _ _ names := (names.headD "", names.tail)
  prune _ names := names

section

variable [Scalar K] (cluster node : String)

/-- The metric is the next one of its cycle, and names a workload that is known. -/
structure Observed (h : List (AgentCall K)) (metric : MetricEvent K) : Prop where
  cycle : ∃ summary now names metrics, Cycling summary now metrics h
    ∧ metrics ++ [metric] <+: (collectSummary playback cluster node now summary names).published
  named : ∀ pod, metric.resource.pod = some pod → ∃ workload,
    metric.resource.service = some workload
      ∧ Known (some metric.resource.namespace_) pod workload h

/-- Only metrics that are observed are published, whatever the calls are answered. -/
def reported : Discipline (Op K) Op.Res Err where
  may h o :=
    match o with
    | .publish metric => Observed cluster node h metric
    | _ => True
  gives _ _ _ := True

variable {cluster node}

theorem reported_read (t : List (AgentCall K)) (o : Op K) (ho : isRead o = true) :
    (reported cluster node).may t o := by
  cases o with
  | publish m => cases ho
  | _ => trivial

theorem resourceRef_ok {ns pod service : Option String} {resource : ResourceRef}
    (h : resourceRef cluster node ns pod service = .ok resource) :
    ns = some resource.namespace_ ∧ resource.pod = pod ∧ resource.service = service := by
  cases ns with
  | none => cases h
  | some ns =>
      cases h
      exact ⟨rfl, rfl, rfl⟩

theorem publishPods_obeys {summary : StatsSummary} {now : Time} {pods : List (PodMetrics K)} :
    ∀ {h : List (AgentCall K)} {cache : Entries} {metrics : List (MetricEvent K)}
      {names : List String}, Backed h cache → Cycling summary now metrics h →
      (∀ more, (collectSummary playback cluster node now summary (names ++ more)).published
        = metrics ++ (Collector.publishPods playback cluster node now pods more).published) →
      Method.Obeys (reported cluster node) (fun t _ s => Backed t s) h cache
        (publishPods cluster node now pods) := by
  induction pods with
  | nil => exact fun hb _ _ => hb
  | cons p pods ih =>
      intro h cache metrics names hb hcyc hplay
      refine Method.Obeys.bind (resolve_obeys reported_read p.namespace_ p.pod hb) ?_
        fun t e s hr => hr.backed
      intro t service s hr
      obtain ⟨⟨since, rfl, hreads⟩, hbacked, hknown⟩ := hr
      refine Method.obeys_ofExcept_bind (fun resource hres => ?_) fun e _ => hbacked
      obtain ⟨hns, hpod, hservice⟩ := resourceRef_ok hres
      have hplay' : ∀ more, (collectSummary playback cluster node now summary
          (names ++ [service] ++ more)).published
            = metrics ++ [⟨now, resource, p.usage⟩]
              ++ (Collector.publishPods playback cluster node now pods more).published := by
        intro more
        rw [List.append_assoc, List.singleton_append, hplay (service :: more)]
        simp [Collector.publishPods, playback, hres]
      refine Method.Obeys.call (o := Op.publish ⟨now, resource, p.usage⟩) ?_
        (fun _ _ => ih (hbacked.cons _) ((hcyc.reads hreads).publish _) hplay')
        fun e _ => hbacked.cons _
      refine ⟨⟨summary, now, names ++ [service], metrics, hcyc.reads hreads, ?_⟩, ?_⟩
      · have hall := hplay' []
        rw [List.append_nil] at hall
        rw [hall]
        exact List.prefix_append _ _
      · intro pod hp
        rw [hpod] at hp
        cases hp
        exact ⟨service, hservice, hns ▸ hknown service rfl⟩

theorem collectOnce_keeps :
    Method.Keeps (reported (K := K) cluster node) Backed (collectOnce cluster node) := by
  intro h cache hb
  refine Method.Obeys.call (o := Op.fetchStatsSummary) trivial ?_ fun e _ => hb.cons _
  intro (summary : StatsSummary) _
  refine Method.Obeys.call (o := Op.now) trivial ?_ fun e _ => (hb.cons _).cons _
  intro (now : Time) _
  have hbacked := (hb.cons ⟨Op.fetchStatsSummary, .ok summary⟩).cons ⟨Op.now, .ok now⟩
  have hcyc : Cycling summary now []
      ((⟨.now, .ok now⟩ : AgentCall K) :: ⟨Op.fetchStatsSummary, .ok summary⟩ :: h) :=
    ⟨[], h, rfl, fun c hc => (List.not_mem_nil hc).elim, rfl⟩
  refine Method.obeys_ofExcept_bind (fun usage hnode => ?_) fun e _ => hbacked
  refine Method.Obeys.call (o := Op.publish (nodeMetric cluster node now usage)) ?_ ?_
    fun e _ => hbacked.cons _
  · refine ⟨⟨summary, now, [], [], hcyc, ?_⟩, fun pod hpod => by cases hpod⟩
    simp only [collectSummary, hnode]
    cases (parsePodMetrics summary : Except Err (List (PodMetrics K))) with
    | error e => exact List.prefix_refl _
    | ok pods => exact List.prefix_append [_] _
  · intro _ _
    refine Method.obeys_ofExcept_bind (fun pods hpods => ?_) fun e _ => hbacked.cons _
    have hplay : ∀ more, (collectSummary playback cluster node now summary ([] ++ more)).published
        = [nodeMetric cluster node now usage]
          ++ (Collector.publishPods playback cluster node now pods more).published := by
      intro more
      simp only [collectSummary, hnode, hpods]
      rfl
    refine (publishPods_obeys (hbacked.cons _) (hcyc.publish _) hplay).bind ?_ ?_
    · intro t _ s hs
      exact hs.prune _
    · intro t e s hs
      exact hs

/-- Started with nothing cached, the thread may come to the history `t`, newest call first, with
`q` left of its round. -/
def Collects (cluster node : String) (interval : ℤ) (t : List (AgentCall K))
    (q : Rounds (Op K) Op.Res Err Entries Unit Empty) : Prop :=
  Reaches (fun _ _ _ => True) (collectLoop cluster node interval) []
    (collectLoop cluster node interval () fun _ => none) t q

/--
**What is published was observed.** In every run of the collecting thread, whatever fails and
however many cycles it has come through, a metric that is published is the next one that its
cycle makes of the summary it fetched, stamped with the time that was read then; and if it is
about a pod, the workload in it is what the API server answered, just now or less than the
TTL ago.
-/
theorem metrics_observed {interval : ℤ} {t : List (AgentCall K)}
    {q : Rounds (Op K) Op.Res Err Entries Unit Empty} (h : Collects cluster node interval t q)
    {metric : MetricEvent K} {r : Except Err Unit} {past : List (AgentCall K)}
    (hc : ⟨.publish metric, r⟩ :: past <:+ t) : Observed cluster node past metric := by
  have hmono : Method.Keeps (reported (K := K) cluster node) Backed monotonic :=
    Method.keeps_perform (fun _ => trivial) fun h s r hs => hs.cons _
  have hsleep : ∀ d, Method.Keeps (reported (K := K) cluster node) Backed (call (.sleep d)) :=
    fun d => Method.keeps_perform (fun _ => trivial) fun h s r hs => hs.cons _
  have hempty : Backed ([] : List (AgentCall K)) fun _ => none := by
    intro ns pod workload seenAt hentry
    cases hentry
  exact Reaches.keeps (keeps_poll hmono hsleep collectOnce_keeps) h hempty
    (Discipline.Kept.nil _) _ _ hc

end

namespace Scenario

/-- One pod, of a Deployment. -/
def deployed : StatsSummary where
  node := .absent
  pods := .value [⟨.value ⟨.value "web-1", .value "shop"⟩, .absent, .absent⟩]

def podMetric (now : Time) : MetricEvent ℚ :=
  ⟨now, ⟨"c", "shop", "n", some "web-1", none, some "web"⟩, ⟨0, 0, none, none, none⟩⟩

def emptyNode (now : Time) : MetricEvent ℚ :=
  nodeMetric "c" "n" now ⟨CpuStats.empty.cores, MemoryStats.empty.workingSet, none, none, none⟩

/-- The first cycle, up to the metric of the pod. -/
def firstPod : List (AgentCall ℚ) :=
  [⟨.publish (podMetric 7), .ok ()⟩,
    ⟨.readNamespacedReplicaSet "web-abc" (some "shop"), .ok [⟨"Deployment", "web"⟩]⟩,
    ⟨.readNamespacedPod "web-1" (some "shop"), .ok [⟨"ReplicaSet", "web-abc"⟩]⟩,
    ⟨.monotonic, .ok (5 : ℤ)⟩, ⟨.publish (emptyNode 7), .ok ()⟩,
    ⟨.now, .ok (7 : ℤ)⟩, ⟨.fetchStatsSummary, .ok deployed⟩, ⟨.monotonic, .ok (1 : ℤ)⟩]

/-- The second cycle, ten seconds later: the pod's workload is not asked for again. -/
def secondPod : List (AgentCall ℚ) :=
  [⟨.publish (podMetric 10000007), .ok ()⟩,
    ⟨.monotonic, .ok (10000005 : ℤ)⟩, ⟨.publish (emptyNode 10000007), .ok ()⟩,
    ⟨.now, .ok (10000007 : ℤ)⟩, ⟨.fetchStatsSummary, .ok deployed⟩,
    ⟨.monotonic, .ok (10000001 : ℤ)⟩, ⟨.sleep 9999990, .ok ()⟩, ⟨.monotonic, .ok (11 : ℤ)⟩]
    ++ firstPod

theorem collects_secondPod : ∃ q, Collects "c" "n" 10000000 secondPod q := by
  apply Exists.intro
  apply Reaches.call (r := .ok (1 : ℤ)) trivial
  apply Reaches.call (r := .ok deployed) trivial
  apply Reaches.call (r := .ok (7 : ℤ)) trivial
  apply Reaches.call (r := .ok ()) trivial
  apply Reaches.call (r := .ok (5 : ℤ)) trivial
  apply Reaches.call (r := .ok [⟨"ReplicaSet", "web-abc"⟩]) trivial
  apply Reaches.call (r := .ok [⟨"Deployment", "web"⟩]) trivial
  apply Reaches.call (r := .ok ()) trivial
  -- the clock once more, and the pause
  apply Reaches.call (r := .ok (11 : ℤ)) trivial
  apply Reaches.call (r := .ok ()) trivial
  apply Reaches.again
  apply Reaches.call (r := .ok (10000001 : ℤ)) trivial
  apply Reaches.call (r := .ok deployed) trivial
  apply Reaches.call (r := .ok (10000007 : ℤ)) trivial
  apply Reaches.call (r := .ok ()) trivial
  apply Reaches.call (r := .ok (10000005 : ℤ)) trivial
  apply Reaches.call (r := .ok ()) trivial
  exact .refl _ _

end Scenario

open Scenario in
/-- A metric that names a workload looked up in the cycle before. -/
theorem metrics_observed_cached :
    Observed "c" "n" secondPod.tail (podMetric 10000007) := by
  obtain ⟨q, hreach⟩ := collects_secondPod
  exact metrics_observed hreach (List.suffix_refl _)

end HyperTrace.Collector.Agent
