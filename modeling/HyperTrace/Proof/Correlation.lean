import HyperTrace.Effect.Latest
import HyperTrace.Collector.WorkloadResolver
import HyperTrace.Cost.Intelligence
import HyperTrace.Proof.Corroboration

/-!
# Deployment correlation and the workload it is about

A cost event names the workload a pod belongs to. A lifecycle message names the pod
itself, or only the namespace when the event is about something else than a pod. The
decision engine looks one up under the other's name, so the two meet only when a pod
is called like its workload.
-/

namespace HyperTrace.Proof

open HyperTrace Effect Collector Decision

/-! ## The two keys -/

theorem partitionSlash_append {a b : String} (h : '/' ∉ a.toList) :
    partitionSlash (a ++ "/" ++ b) = (a, b) := by
  have htext : (a ++ "/" ++ b).toList = a.toList ++ '/' :: b.toList := by
    simp [String.toList_append]
  have hall : ∀ c ∈ a.toList, (decide (c ≠ '/')) = true := by
    intro c hc
    exact decide_eq_true fun heq => h (heq ▸ hc)
  rw [partitionSlash, htext, List.takeWhile_append_of_pos hall, List.dropWhile_append_of_pos hall]
  simp

/-- What two slash-separated texts have in common they have in both parts. -/
theorem slash_inj {a b c d : String} (ha : '/' ∉ a.toList) (hc : '/' ∉ c.toList) :
    a ++ "/" ++ b = c ++ "/" ++ d ↔ a = c ∧ b = d := by
  constructor
  · intro h
    have hsplit := congrArg partitionSlash h
    rw [partitionSlash_append ha, partitionSlash_append hc] at hsplit
    exact Prod.mk.inj hsplit
  · intro h
    rw [h.1, h.2]

theorem slash_mem (a b : String) : '/' ∈ (a ++ "/" ++ b).toList := by
  simp [String.toList_append]

theorem namespaceText_noSlash (involved : InvolvedObject) :
    '/' ∉ involved.namespaceText.toList := by
  unfold InvolvedObject.namespaceText
  cases involved.namespace_ with
  | none => decide
  | some ns => exact ns.noSlash

theorem filter_text (name : ObjectName) :
    (some name.text).filter (· ≠ "") = some name.text := by
  rw [Option.filter_some, if_pos (decide_eq_true name.nonempty)]

/-- The service a pod's cost is billed to. -/
theorem serviceId_podResource (cluster node : String) (ns pod workload : ObjectName) :
    Cost.serviceId (podResource cluster node ns pod workload)
      = some (ns.text ++ "/" ++ workload.text) := by
  simp only [Cost.serviceId, Cost.nonempty, podResource, filter_text, Option.getD_some]

/-- The key an event is recorded under, if it is. -/
def recordedKey (raw : CoreEvent) : Option String :=
  (lifecycleEvent raw).bind fun m =>
    if m.eventType ∈ deploymentLikeEvents then (lifecycleKey m).filter (· ≠ "") else none

/-- The watcher emits a message for the event, of a type that counts as a deployment. -/
def DeploymentLike (raw : CoreEvent) : Prop :=
  ∃ m, lifecycleEvent raw = some m ∧ m.eventType ∈ deploymentLikeEvents

/-- The event is about an object of this kind and name. -/
def About (raw : CoreEvent) (kind : String) (ns name : ObjectName) : Prop :=
  raw.involvedObject.kind = kind ∧ raw.involvedObject.name = some name
    ∧ raw.involvedObject.namespaceText = ns.text

theorem fields_of_lifecycleEvent {raw : CoreEvent} {m : LifecycleEvent}
    (h : lifecycleEvent raw = some m) :
    m.namespace_ = some raw.involvedObject.namespaceText
      ∧ m.pod = if raw.involvedObject.kind = "Pod" then
          raw.involvedObject.name.map ObjectName.text else none := by
  unfold lifecycleEvent at h
  split at h
  · cases h
  · dsimp only at h
    split at h
    · cases h
    · cases h
      exact ⟨rfl, rfl⟩

/-- A message about a named pod is recorded under both names, any other under the namespace. -/
theorem lifecycleKey_eq {raw : CoreEvent} {m : LifecycleEvent} (h : lifecycleEvent raw = some m) :
    (∃ pod, raw.involvedObject.kind = "Pod" ∧ raw.involvedObject.name = some pod
        ∧ lifecycleKey m = some (raw.involvedObject.namespaceText ++ "/" ++ pod.text))
      ∨ (∀ pod, ¬ (raw.involvedObject.kind = "Pod" ∧ raw.involvedObject.name = some pod))
        ∧ lifecycleKey m = some raw.involvedObject.namespaceText := by
  obtain ⟨hns, hpod⟩ := fields_of_lifecycleEvent h
  -- only for a pod does the collector keep the name of the object
  by_cases hkind : raw.involvedObject.kind = "Pod"
  · rw [if_pos hkind] at hpod
    cases hname : raw.involvedObject.name with
    | none =>
        right
        rw [hname] at hpod
        refine ⟨?_, ?_⟩
        · intro pod hp
          cases hp.2
        · simp only [lifecycleKey, hpod, Option.map_none, hns]
    | some pod =>
        left
        rw [hname] at hpod
        refine ⟨pod, hkind, rfl, ?_⟩
        simp only [lifecycleKey, hpod, Option.map_some, hns, Option.getD_some]
        exact if_neg pod.nonempty
  · right
    rw [if_neg hkind] at hpod
    refine ⟨?_, ?_⟩
    · intro pod hp
      exact hkind hp.1
    · simp only [lifecycleKey, hpod, hns]

/-- **An event is recorded for a workload exactly if it is about a pod of the workload's name.** -/
theorem recordedKey_iff (raw : CoreEvent) (ns workload : ObjectName) :
    recordedKey raw = some (ns.text ++ "/" ++ workload.text)
      ↔ DeploymentLike raw ∧ About raw "Pod" ns workload := by
  -- a namespace has no slash, so a key with one has the pod behind it
  have hslash := namespaceText_noSlash raw.involvedObject
  have hne : ns.text ++ "/" ++ workload.text ≠ "" := by
    intro hempty
    have hmem := slash_mem ns.text workload.text
    rw [hempty] at hmem
    cases hmem
  have hkey : recordedKey raw = some (ns.text ++ "/" ++ workload.text)
      ↔ ∃ m, lifecycleEvent raw = some m ∧ m.eventType ∈ deploymentLikeEvents
        ∧ lifecycleKey m = some (ns.text ++ "/" ++ workload.text) := by
    unfold recordedKey
    cases lifecycleEvent raw with
    | none => simp
    | some m =>
        by_cases htype : m.eventType ∈ deploymentLikeEvents
        · simp [htype, Option.filter_eq_some_iff, hne]
        · simp [htype]
  rw [hkey]
  constructor
  · intro h
    obtain ⟨m, hm, htype, hk⟩ := h
    refine ⟨⟨m, hm, htype⟩, ?_⟩
    rcases lifecycleKey_eq hm with ⟨pod, hkind, hname, hpod⟩ | ⟨_, hother⟩
    · rw [hpod, Option.some.injEq, slash_inj hslash ns.noSlash] at hk
      have hpod' : pod = workload := by
        cases pod
        cases workload
        simpa using hk.2
      exact ⟨hkind, hpod' ▸ hname, hk.1⟩
    · rw [hother, Option.some.injEq] at hk
      exact absurd (hk ▸ slash_mem ns.text workload.text) hslash
  · intro h
    obtain ⟨⟨m, hm, htype⟩, hkind, hname, hns⟩ := h
    refine ⟨m, hm, htype, ?_⟩
    rcases lifecycleKey_eq hm with ⟨pod, _, hname', hpod⟩ | ⟨hno, _⟩
    · rw [hname'] at hname
      cases hname
      rw [hpod, hns]
    · exact absurd ⟨hkind, hname⟩ (hno workload)

/-! ## What the decision engine remembers -/

variable {K : Type}

/--
The world after a feed of Kubernetes Events, the latest first: the messages they
become are handled one after the other, each at its time.
-/
def fed [Scalar K] (w : World K) : List (Time × CoreEvent) → World K
  | [] => { w with recentEvents := fun _ => none }
  | (t, raw) :: feed =>
      match lifecycleEvent raw with
      | none => fed w feed
      | some m => ((handleLifecycle m).run exec (sound id) { fed w feed with clock := t }).2

/-- The map once an event has been recorded under a key, if it is. -/
def record (events : String → Option Time) (t : Time) : Option String → String → Option Time
  | none => events
  | some key => put events key t

theorem handleLifecycle_run [Scalar K] (tie : Nat → Nat) (w : World K) (m : LifecycleEvent) :
    ((handleLifecycle m).run exec (sound tie) w).2
      = { w with
          recentEvents := record w.recentEvents w.clock (if m.eventType ∈ deploymentLikeEvents then
            (lifecycleKey m).filter (· ≠ "") else none) } := by
  unfold handleLifecycle
  by_cases htype : m.eventType ∈ deploymentLikeEvents
  · simp only [htype, not_true_eq_false, ↓reduceIte]
    cases lifecycleKey m with
    | none => rfl
    | some key =>
        by_cases hempty : key = ""
        · subst hempty
          rfl
        · simp only [hempty, ↓reduceIte, Option.filter_some, ne_eq, not_false_eq_true, decide_true]
          rfl
  · simp only [htype, not_false_eq_true, ↓reduceIte]
    rfl

theorem recentEvents_cons [Scalar K] (w : World K) (t : Time) (raw : CoreEvent)
    (feed : List (Time × CoreEvent)) :
    (fed w ((t, raw) :: feed)).recentEvents
      = record (fed w feed).recentEvents t (recordedKey raw) := by
  rw [fed, recordedKey]
  cases lifecycleEvent raw with
  | none => rfl
  | some m =>
      exact congrArg World.recentEvents (handleLifecycle_run id { fed w feed with clock := t } m)

/-- **The map holds the time of the latest event recorded under a key.** -/
theorem recentEvents_fed [Scalar K] (w : World K) (feed : List (Time × CoreEvent)) (key : String) :
    (fed w feed).recentEvents key
      = (feed.find? fun e => recordedKey e.2 = some key).map Prod.fst := by
  induction feed with
  | nil => rfl
  | cons e feed ih =>
      obtain ⟨t, raw⟩ := e
      rw [recentEvents_cons, List.find?_cons]
      cases hk : recordedKey raw with
      | none => simpa [record] using ih
      | some k =>
          by_cases heq : k = key
          · subst heq
            simp [record]
          · rw [record, put_ne _ _ (Ne.symm heq)]
            simpa [heq] using ih

/-- A feed in the order of the clock, which reads `now`. -/
structure Feed where
  now : Time
  events : List (Time × CoreEvent)
  past : ∀ e ∈ events, e.1 ≤ now
  ordered : events.Pairwise fun a b => b.1 ≤ a.1

/-- The world at the end of a feed. -/
def Feed.world [Scalar K] (f : Feed) (w : World K) : World K :=
  { fed w f.events with clock := f.now }

/-- An event of the feed within the deployment window. -/
def Feed.Recent (f : Feed) (cfg : Decision.Config) (q : CoreEvent → Prop) : Prop :=
  ∃ e ∈ f.events, f.now - e.1 ≤ minutes cfg.recentDeploymentWindowMinutes ∧ q e.2

/-- **A service counts as deployed if any event of the window was recorded under its name.** -/
theorem deployed_iff [Scalar K] (cfg : Decision.Config) (f : Feed) (w : World K)
    (service : String) : deployed cfg (f.world w) service = true
      ↔ f.Recent cfg fun raw => recordedKey raw = some service := by
  have hmap := recentEvents_fed w f.events service
  have hdep : deployed cfg (f.world w) service = true
      ↔ ∃ t, (fed w f.events).recentEvents service = some t
        ∧ f.now - t ≤ minutes cfg.recentDeploymentWindowMinutes := by
    have hfed : (f.world w).recentEvents service = (fed w f.events).recentEvents service := rfl
    have hnow : (f.world w).clock = f.now := rfl
    unfold deployed
    rw [hfed, hnow]
    cases (fed w f.events).recentEvents service with
    | none => simp
    | some t => simp
  rw [hdep, hmap]
  constructor
  · intro h
    obtain ⟨t, ht, hwithin⟩ := h
    obtain ⟨e, he, rfl⟩ := Option.map_eq_some_iff.mp ht
    exact ⟨e, List.mem_of_find?_eq_some he, hwithin, by simpa using List.find?_some he⟩
  · intro h
    obtain ⟨e, he, hwithin, hkey⟩ := h
    -- the map keeps the latest of them, which is no older
    obtain ⟨a, hfind, hle⟩ := exists_find_latest Prod.fst f.ordered he
      (q := fun e => recordedKey e.2 = some service) (by simpa using hkey)
    exact ⟨a.1, by rw [hfind]; rfl, (sub_le_sub_left hle f.now).trans hwithin⟩

/-! ## The claim, and what it takes -/

variable [Scalar K]

/--
A pod whose cost is billed to a workload: what the resolver found for the pod is what
its metrics, and then its cost events, are published under.
-/
structure Billed (K : Type) [Scalar K] where
  ns : ObjectName
  pod : ObjectName
  workload : ObjectName
  costEvent : CostEvent K
  resolved : ∃ api cache now, (resolve api cache now ns pod).1 = workload
  published : ∃ cluster node pricing now cpu bytes,
    Cost.handle pricing now ⟨podResource cluster node ns pod workload, cpu, bytes⟩ = some costEvent

theorem Billed.service_eq (a : Billed K) :
    a.costEvent.service = a.ns.text ++ "/" ++ a.workload.text := by
  obtain ⟨cluster, node, pricing, now, cpu, bytes, h⟩ := a.published
  rw [Cost.handle, serviceId_podResource, Option.map_some, Option.some.injEq] at h
  rw [← h]

/-- A deployment-like event about the pod, or about the workload's Deployment or HPA. -/
def Concerns (a : Billed K) (raw : CoreEvent) : Prop :=
  DeploymentLike raw ∧ (About raw "Pod" a.ns a.pod ∨ About raw "Deployment" a.ns a.workload
    ∨ About raw "HorizontalPodAutoscaler" a.ns a.workload)

/-- `_classify` returns `LIKELY_BUG_FROM_DEPLOYMENT`. -/
def LikelyBug (cfg : Decision.Config) (w : World K) (service : String)
    (verdict : Option AnomalyClassification) : Prop :=
  ∃ reason, (classify cfg service verdict).run exec (sound id) w
    = (.ok (.likelyBugFromDeployment, reason), w)

theorem likelyBug_iff {cfg : Decision.Config} {w : World K} {service : String}
    {verdict : Option AnomalyClassification} (hverdict : verdict ≠ some .legitimateTrafficGrowth)
    (hsecurity : signalled cfg w service = none) :
    LikelyBug cfg w service verdict ↔ deployed cfg w service = true := by
  have hrun : ∃ reason, (classify cfg service verdict).run exec (sound id) w
      = (.ok (classified cfg w service, reason), w) := classify_run hverdict
  obtain ⟨reason, hrun⟩ := hrun
  have hclass : classified cfg w service
      = if deployed cfg w service then .likelyBugFromDeployment else .misconfigurationOrWaste := by
    rw [classified, hsecurity]
    rfl
  rw [hclass] at hrun
  constructor
  · intro h
    obtain ⟨reason', hrun'⟩ := h
    rw [hrun] at hrun'
    by_contra hnot
    rw [if_neg hnot] at hrun'
    simp at hrun'
  · intro h
    rw [if_pos h] at hrun
    exact ⟨reason, hrun⟩

/--
**Deployment correlation reaches a workload exactly when a pod is called like it.**

For every pod and the workload its cost goes to, and every feed of Kubernetes Events:
without a recent security signal, an event about the pod or its workload makes the
verdict `likely_bug_from_deployment` if and only if there is an event, in the same
window, about a pod that has the workload's own name.
-/
theorem correlated_iff (cfg : Decision.Config) (a : Billed K) (f : Feed) (w : World K)
    (verdict : Option AnomalyClassification) (hverdict : verdict ≠ some .legitimateTrafficGrowth)
    (hsecurity : signalled cfg (f.world w) a.costEvent.service = none) :
    (f.Recent cfg (Concerns a) → LikelyBug cfg (f.world w) a.costEvent.service verdict)
      ↔ (f.Recent cfg (Concerns a) →
          f.Recent cfg fun raw => DeploymentLike raw ∧ About raw "Pod" a.ns a.workload) := by
  have hdep := deployed_iff cfg f w a.costEvent.service
  simp only [a.service_eq, recordedKey_iff] at hdep
  refine imp_congr_right fun _ => ?_
  rw [likelyBug_iff hverdict hsecurity, a.service_eq, hdep]

namespace Scenario

def shop : ObjectName := ⟨"shop", by decide, by decide⟩

def web : ObjectName := ⟨"web", by decide, by decide⟩

def webReplicaSet : ObjectName := ⟨"web-5d9", by decide, by decide⟩

def webPod : ObjectName := ⟨"web-5d9-x7k", by decide, by decide⟩

/-- A pod of a ReplicaSet of the Deployment `web`. -/
def owners : OwnerApi where
  pod _ _ := .ok [⟨"ReplicaSet", webReplicaSet⟩]
  replicaSet _ _ := .ok [⟨"Deployment", web⟩]

def metrics : Cost.MetricEvent ℚ := ⟨podResource "c" "n" shop webPod web, 1, 0⟩

/-- What the pod costs, billed to `shop/web`. -/
def billed : Billed ℚ where
  ns := shop
  pod := webPod
  workload := web
  costEvent := ⟨0, "shop/web", metrics.resource, 1, some (some 1)⟩
  resolved := ⟨owners, fun _ => none, 0, rfl⟩
  published := ⟨"c", "n", ⟨1, 0⟩, 0, 1, 0, by
    simp [Cost.handle, serviceId_podResource, metrics, Cost.PricingModel.costPerHour, shop, web]⟩

def started (pod : ObjectName) : CoreEvent :=
  ⟨some "Started", ⟨"Pod", some shop, some pod⟩, some 0, none, none⟩

def scaled : CoreEvent :=
  ⟨some "ScalingReplicaSet", ⟨"Deployment", some shop, some web⟩, some 0, none, none⟩

/-- The Deployment was just scaled, and its pod just started. -/
def rollout : Feed := ⟨0, [(0, started webPod), (0, scaled)], by decide, by decide⟩

/-- A pod nobody owns. -/
def bare : Billed ℚ where
  ns := shop
  pod := web
  workload := web
  costEvent := ⟨0, "shop/web", podResource "c" "n" shop web web, 1, some (some 1)⟩
  resolved := ⟨⟨fun _ _ => .ok [], fun _ _ => .ok []⟩, fun _ => none, 0, rfl⟩
  published := ⟨"c", "n", ⟨1, 0⟩, 0, 1, 0, by
    simp [Cost.handle, serviceId_podResource, Cost.PricingModel.costPerHour, shop, web]⟩

def restarted : Feed := ⟨0, [(0, started web)], by decide, by decide⟩

theorem deploymentLike_started (pod : ObjectName) : DeploymentLike (started pod) := by
  refine ⟨_, rfl, ?_⟩
  show LifecycleEventType.podCreated.value ∈ deploymentLikeEvents
  decide

end Scenario

open Scenario in
/-- A pod without an owner is its own workload, and is reached. -/
theorem correlated_iff_bare :
    restarted.Recent settings.decision (Concerns bare)
      ∧ LikelyBug settings.decision (restarted.world (World.empty ℚ)) bare.costEvent.service
          none := by
  have habout : About (started web) "Pod" shop web := ⟨rfl, rfl, rfl⟩
  have hconcerns : restarted.Recent settings.decision (Concerns bare) :=
    ⟨_, List.mem_cons_self .., by decide, deploymentLike_started web, Or.inl habout⟩
  refine ⟨hconcerns, (correlated_iff settings.decision bare restarted (World.empty ℚ) none
    (by decide) rfl).mpr (fun _ => ?_) hconcerns⟩
  exact ⟨_, List.mem_cons_self .., by decide, deploymentLike_started web, habout⟩

open Scenario in
/--
**A rollout goes unnoticed.** The Deployment `web` was scaled and its pod `web-5d9-x7k`
started, both just now: the verdict on `shop/web` is that of a misconfiguration.
-/
theorem rollout_uncorrelated :
    rollout.Recent settings.decision (Concerns billed)
      ∧ signalled settings.decision (rollout.world (World.empty ℚ)) billed.costEvent.service
          = none
      ∧ ¬ LikelyBug settings.decision (rollout.world (World.empty ℚ)) billed.costEvent.service
          none := by
  have hconcerns : rollout.Recent settings.decision (Concerns billed) :=
    ⟨_, List.mem_cons_self .., by decide, deploymentLike_started webPod,
      Or.inl ⟨rfl, rfl, rfl⟩⟩
  refine ⟨hconcerns, rfl, ?_⟩
  rw [likelyBug_iff (by decide) rfl, Bool.not_eq_true]
  decide

end HyperTrace.Proof
