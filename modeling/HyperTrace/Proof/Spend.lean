import HyperTrace.Api.Dashboard
import HyperTrace.Collector.WorkloadResolver
import HyperTrace.Cost.Intelligence
import HyperTrace.Effect.Latest
import HyperTrace.Numeric.Representatives
import HyperTrace.Proof.Correlation

/-!
# The headline spend

Every pod is priced on its own, and its row is stored under the workload it belongs
to. The summary takes one row for each workload, the latest, which is about one of
its pods. So the headline is the spend of the cluster less what all other pods cost.
-/

namespace HyperTrace

namespace Api

/-! ## The first row of each service -/

variable {K : Type}

theorem any_key (d : List (String × K)) (key : String) :
    (d.any fun item => item.1 = key) = true ↔ key ∈ d.map Prod.fst := by
  simp [List.any_eq_true]

theorem setdefault_of_mem {d : List (String × K)} {key : String} (h : key ∈ d.map Prod.fst)
    (value : K) : setdefault d key value = d :=
  if_pos ((any_key d key).mpr h)

theorem setdefault_of_not_mem {d : List (String × K)} {key : String} (h : key ∉ d.map Prod.fst)
    (value : K) : setdefault d key value = d ++ [(key, value)] :=
  if_neg (mt (any_key d key).mp h)

/-- What a dict holds after more rows: what it held, and the first row of each new key. -/
theorem mem_foldl_setdefault (rows : List (CostEventRow K)) (d : List (String × K))
    (service : String) (cost : K) :
    (service, cost) ∈ rows.foldl (fun d row => setdefault d row.service row.costPerHour) d
      ↔ (service, cost) ∈ d ∨ service ∉ d.map Prod.fst
        ∧ ((rows.find? fun row => row.service = service).map CostEventRow.costPerHour)
          = some cost := by
  induction rows generalizing d with
  | nil => simp
  | cons row rows ih =>
      rw [List.foldl_cons, ih]
      by_cases hkey : row.service ∈ d.map Prod.fst
      · rw [setdefault_of_mem hkey]
        by_cases hsame : row.service = service
        · have hin : service ∈ d.map Prod.fst := hsame ▸ hkey
          simp only [hin, not_true_eq_false, false_and]
        · rw [List.find?_cons_of_neg (by simpa using hsame)]
      · rw [setdefault_of_not_mem hkey]
        by_cases hsame : row.service = service
        · subst hsame
          rw [List.find?_cons_of_pos (by simp)]
          simp [hkey, eq_comm]
        · rw [List.find?_cons_of_neg (by simpa using hsame)]
          simp [Ne.symm hsame]

theorem nodup_foldl_setdefault (rows : List (CostEventRow K)) {d : List (String × K)}
    (hd : (d.map Prod.fst).Nodup) :
    ((rows.foldl (fun d row => setdefault d row.service row.costPerHour) d).map Prod.fst).Nodup := by
  induction rows generalizing d with
  | nil => exact hd
  | cons row rows ih =>
      refine ih ?_
      dsimp only
      by_cases hkey : row.service ∈ d.map Prod.fst
      · rwa [setdefault_of_mem hkey]
      · rw [setdefault_of_not_mem hkey, List.map_append]
        refine List.nodup_append.mpr ⟨hd, List.nodup_singleton _, ?_⟩
        intro a ha x hx heq
        obtain rfl := List.mem_singleton.mp hx
        rw [heq] at ha
        exact hkey ha

/-- **The dict holds the first row of each service.** -/
theorem mem_latestByService {rows : List (CostEventRow K)} {service : String} {cost : K} :
    (service, cost) ∈ latestByService rows
      ↔ ((rows.find? fun row => row.service = service).map CostEventRow.costPerHour)
        = some cost := by
  rw [latestByService, mem_foldl_setdefault]
  simp

theorem latestByService_nodup (rows : List (CostEventRow K)) :
    ((latestByService rows).map Prod.fst).Nodup :=
  nodup_foldl_setdefault rows List.nodup_nil

/-! ## The order of the rows -/

theorem mem_orderByService {tie : Nat → Nat} {rows : List (CostEventRow K)} {row : CostEventRow K} :
    row ∈ orderByService tie rows ↔ row ∈ rows := by
  have hperm := (List.perm_insertionSort (fun a b => summaryKey tie a ≤ summaryKey tie b)
    rows.zipIdx).map Prod.fst
  rw [List.zipIdx_map_fst] at hperm
  exact hperm.mem_iff

/-- Rows of one service come with the latest first. -/
theorem orderByService_sorted (tie : Nat → Nat) (rows : List (CostEventRow K)) :
    (orderByService tie rows).Pairwise fun a b => a.service = b.service → b.time ≤ a.time := by
  have hsorted := List.pairwise_insertionSort (fun a b => summaryKey tie a ≤ summaryKey tie b)
    rows.zipIdx
  rw [orderByService, List.pairwise_map]
  refine hsorted.imp fun {a b} hab hservice => ?_
  rw [summaryKey, summaryKey, hservice, Prod.Lex.toLex_le_toLex] at hab
  obtain hlt | ⟨_, hle⟩ := hab
  · exact absurd hlt (lt_irrefl _)
  · rw [Prod.Lex.toLex_le_toLex] at hle
    obtain hlt | ⟨heq, _⟩ := hle
    · exact (neg_lt_neg_iff.mp hlt).le
    · exact (neg_inj.mp heq).ge

/-- **The first row of a service is a latest one.** -/
theorem find_orderByService {tie : Nat → Nat} {rows : List (CostEventRow K)} {service : String}
    {row : CostEventRow K}
    (h : (orderByService tie rows).find? (fun row => row.service = service) = some row) :
    row ∈ orderByService tie rows ∧ row.service = service
      ∧ ∀ row' ∈ orderByService tie rows, row'.service = service → row'.time ≤ row.time := by
  obtain ⟨hservice, before, after, hsplit, hbefore⟩ := List.find?_eq_some_iff_append.mp h
  have hservice : row.service = service := of_decide_eq_true hservice
  have hsorted := orderByService_sorted tie rows
  rw [hsplit] at hsorted ⊢
  rw [List.pairwise_append, List.pairwise_cons] at hsorted
  refine ⟨List.mem_append_right _ (List.mem_cons_self ..), hservice, ?_⟩
  intro row' hrow' hservice'
  obtain hin | hin := List.mem_append.mp hrow'
  · have hno := hbefore row' hin
    simp [hservice'] at hno
  · obtain rfl | hin := List.mem_cons.mp hin
    · exact le_refl _
    · exact hsorted.2.1.1 row' hin (hservice.trans hservice'.symm)

end Api

namespace Proof

open HyperTrace Effect Collector Numeric

variable {K : Type} [Scalar K]

/-! ## What is billed -/

/-- A pod, by its namespace and its name. -/
structure PodRef where
  ns : ObjectName
  name : ObjectName
  deriving DecidableEq

instance : Inhabited PodRef := ⟨⟨⟨"-", by decide, by decide⟩, ⟨"-", by decide, by decide⟩⟩⟩

/-- What a metric event says about a pod, and when it was priced. Nobody uses less than nothing. -/
structure Priced (K : Type) [Scalar K] where
  time : Time
  pod : PodRef
  cluster : String
  node : String
  cpuUsageCores : K
  memoryWorkingSetBytes : ℕ
  cpu_nonneg : 0 ≤ cpuUsageCores

/-- A cluster and what was priced of it, newest first, until somebody looks at the dashboard. -/
structure Billing (K : Type) [Scalar K] where
  pricing : Cost.PricingModel K
  cpuPrice_nonneg : 0 ≤ pricing.cpuCoreHour
  memoryPrice_nonneg : 0 ≤ pricing.memoryGbHour
  owners : OwnerApi
  now : Time
  live : List PodRef
  priced : List (Priced K)
  /-- A pod is one pod. -/
  nodup : live.Nodup
  /-- The events are priced one after the other. -/
  ordered : priced.Pairwise fun a b => b.time < a.time
  /-- During the last five minutes at least one event of each live pod was priced. -/
  covers : ∀ p ∈ live, ∃ e ∈ priced, now - minutes 5 ≤ e.time ∧ e.pod = p
  /-- And of no other. -/
  only : ∀ e ∈ priced, now - minutes 5 ≤ e.time → e.pod ∈ live

namespace Billing

variable (b : Billing K)

/-- The service a pod belongs to: its workload, in its namespace. -/
def service (p : PodRef) : String := p.ns.text ++ "/" ++ (lookup b.owners p.ns p.name).text

/-- The event as it comes from the collector. -/
def message (e : Priced K) : Cost.MetricEvent K where
  resource := podResource e.cluster e.node e.pod.ns e.pod.name
    (lookup b.owners e.pod.ns e.pod.name)
  cpuUsageCores := e.cpuUsageCores
  memoryWorkingSetBytes := e.memoryWorkingSetBytes

def cost (e : Priced K) : K := b.pricing.costPerHour e.cpuUsageCores e.memoryWorkingSetBytes

/-- The table `cost_events`. -/
def costEvents : List (CostEventRow K) :=
  b.priced.filterMap fun e => Cost.storedRow b.pricing e.time (b.message e)

/-- The latest priced event of a pod. -/
def latest (p : PodRef) : Option (Priced K) := b.priced.find? fun e => e.pod = p

/-- What a pod costs, by its latest priced event. -/
def latestCost (p : PodRef) : K := ((b.latest p).map b.cost).getD 0

/-- The summary, rows of equal key coming out of the database in the order of `tie`. -/
def summary (tie : Nat → Nat) : Api.DashboardSummary K :=
  Api.getDashboardSummary b.now tie b.costEvents

/-- The headline is the spend of the cluster, and each entry that of its service. -/
structure SpendShown (tie : Nat → Nat) : Prop where
  total : (b.summary tie).totalCostPerHour = (b.live.map b.latestCost).sum
  entries : ∀ entry ∈ (b.summary tie).topServices,
    entry.costPerHour = ((b.live.filter fun p => b.service p = entry.service).map b.latestCost).sum

/-- Of two pods of one service, the one priced last before the other costs nothing. -/
def OneCosts : Prop :=
  ∀ p ∈ b.live, ∀ q ∈ b.live, b.service p = b.service q → ∀ e e', b.latest p = some e →
    b.latest q = some e' → e.time < e'.time → b.cost e = 0

/-! ## The table -/

def row (e : Priced K) : CostEventRow K :=
  ⟨e.time, b.service e.pod, "compute", b.pricing.cpuCoreHour, b.cost e⟩

theorem costEvents_eq : b.costEvents = b.priced.map b.row := by
  have hrow : ∀ e : Priced K, Cost.storedRow b.pricing e.time (b.message e) = some (b.row e) := by
    intro e
    rw [Cost.storedRow, message, serviceId_podResource]
    rfl
  rw [costEvents, List.filterMap_congr fun e _ => hrow e, List.filterMap_eq_map']

/-- The rows of the last five minutes, as the database returns them. -/
def rows (tie : Nat → Nat) : List (CostEventRow K) :=
  Api.orderByService tie (b.costEvents.filter fun row => b.now - minutes 5 ≤ row.time)

/-- The latest event of a service in the last five minutes. -/
structure Newest (s : String) (e : Priced K) : Prop where
  mem : e ∈ b.priced
  recent : b.now - minutes 5 ≤ e.time
  service : b.service e.pod = s
  latest : ∀ e' ∈ b.priced, b.now - minutes 5 ≤ e'.time → b.service e'.pod = s → e'.time ≤ e.time

/-- The same, as a search. -/
def newest (s : String) : Option (Priced K) :=
  b.priced.find? fun e => decide (b.now - minutes 5 ≤ e.time) && decide (b.service e.pod = s)

section

variable {b} {s : String} {p : PodRef} {e e' : Priced K} {tie : Nat → Nat}

theorem newest_iff : b.newest s = some e ↔ b.Newest s e := by
  rw [newest, find_eq_some_iff b.ordered]
  simp only [Bool.and_eq_true, decide_eq_true_eq]
  constructor
  · intro h
    exact ⟨h.1, h.2.1.1, h.2.1.2, fun e' he' hr hs => h.2.2 e' he' ⟨hr, hs⟩⟩
  · intro h
    exact ⟨h.mem, ⟨h.recent, h.service⟩, fun e' he' hq => h.latest e' he' hq.1 hq.2⟩

theorem latest_iff : b.latest p = some e
    ↔ e ∈ b.priced ∧ e.pod = p ∧ ∀ e' ∈ b.priced, e'.pod = p → e'.time ≤ e.time := by
  rw [latest, find_eq_some_iff b.ordered]
  simp only [decide_eq_true_eq]

theorem latestCost_eq (h : b.latest p = some e) : b.latestCost p = b.cost e := by
  rw [latestCost, h]
  rfl

/-- A live pod has a latest event, and it is not older than five minutes. -/
theorem latest_of_live (hp : p ∈ b.live) :
    ∃ e, b.latest p = some e ∧ b.now - minutes 5 ≤ e.time := by
  obtain ⟨e, he, hrecent, hpod⟩ := b.covers p hp
  have hsome : (b.latest p).isSome = true := by
    rw [latest, List.find?_isSome]
    exact ⟨e, he, decide_eq_true hpod⟩
  obtain ⟨e', he'⟩ := Option.isSome_iff_exists.mp hsome
  exact ⟨e', he', hrecent.trans ((latest_iff.mp he').2.2 e he hpod)⟩

/-- The latest event of a service is the latest of its pod, which is live. -/
theorem Newest.latest_pod (h : b.Newest s e) : b.latest e.pod = some e ∧ e.pod ∈ b.live := by
  refine ⟨latest_iff.mpr ⟨h.mem, rfl, ?_⟩, b.only e h.mem h.recent⟩
  intro e' he' hpod
  by_cases hrecent : b.now - minutes 5 ≤ e'.time
  · exact h.latest e' he' hrecent (hpod ▸ h.service)
  · exact (not_le.mp hrecent).le.trans h.recent

theorem newest_of_live (hp : p ∈ b.live) : ∃ e, b.Newest (b.service p) e := by
  obtain ⟨e, he, hrecent⟩ := latest_of_live hp
  obtain ⟨hmem, hpod, _⟩ := latest_iff.mp he
  have hsome : (b.newest (b.service p)).isSome = true := by
    rw [newest, List.find?_isSome]
    exact ⟨e, hmem, by simp [hrecent, hpod]⟩
  obtain ⟨e', he'⟩ := Option.isSome_iff_exists.mp hsome
  exact ⟨e', newest_iff.mp he'⟩

theorem mem_rows {row : CostEventRow K} :
    row ∈ b.rows tie ↔ ∃ e ∈ b.priced, b.now - minutes 5 ≤ e.time ∧ row = b.row e := by
  rw [rows, Api.mem_orderByService, List.mem_filter, costEvents_eq, List.mem_map]
  constructor
  · intro h
    obtain ⟨⟨e, he, rfl⟩, hrecent⟩ := h
    exact ⟨e, he, of_decide_eq_true hrecent, rfl⟩
  · intro h
    obtain ⟨e, he, hrecent, rfl⟩ := h
    exact ⟨⟨e, he, rfl⟩, decide_eq_true hrecent⟩

/-- **The summary has an entry for a service exactly with the cost of its latest event.** -/
theorem mem_latestByService_iff {c : K} :
    (s, c) ∈ Api.latestByService (b.rows tie) ↔ ∃ e, b.Newest s e ∧ b.cost e = c := by
  rw [Api.mem_latestByService, Option.map_eq_some_iff]
  -- whatever row comes first for a service is that of its latest event
  have hfirst : ∀ row, (b.rows tie).find? (fun row => row.service = s) = some row →
      ∃ e, b.Newest s e ∧ row = b.row e := by
    intro row hrow
    obtain ⟨hmem, hservice, hlatest⟩ := Api.find_orderByService hrow
    obtain ⟨e, he, hrecent, rfl⟩ := mem_rows.mp hmem
    refine ⟨e, ⟨he, hrecent, hservice, ?_⟩, rfl⟩
    intro e' he' hrecent' hservice'
    exact hlatest (b.row e') (mem_rows.mpr ⟨e', he', hrecent', rfl⟩) hservice'
  constructor
  · intro h
    obtain ⟨row, hrow, hc⟩ := h
    obtain ⟨e, he, rfl⟩ := hfirst row hrow
    exact ⟨e, he, hc⟩
  · intro h
    obtain ⟨e, he, hc⟩ := h
    have hsome : ((b.rows tie).find? fun row => row.service = s).isSome = true := by
      rw [List.find?_isSome]
      exact ⟨b.row e, mem_rows.mpr ⟨e, he.mem, he.recent, rfl⟩, decide_eq_true he.service⟩
    obtain ⟨row, hrow⟩ := Option.isSome_iff_exists.mp hsome
    obtain ⟨e', he', rfl⟩ := hfirst row hrow
    -- and a service has one latest event
    have hsame : e' = e := eq_of_time b.ordered he'.mem he.mem
      (le_antisymm (he.latest e' he'.mem he'.recent he'.service)
        (he'.latest e he.mem he.recent he.service))
    exact ⟨_, hrow, by rw [hsame]; exact hc⟩

end

/-! ## One pod for all of a service -/

/-- The pod that was priced last of a service. -/
def shown (s : String) : PodRef := ((b.newest s).map Priced.pod).getD default

section

variable {b} {s : String} {p q : PodRef} {e e' : Priced K} {tie : Nat → Nat}

theorem shown_eq (h : b.Newest s e) : b.shown s = e.pod := by
  rw [shown, newest_iff.mpr h]
  rfl

theorem latestCost_shown (h : b.Newest s e) : b.latestCost (b.shown s) = b.cost e := by
  rw [shown_eq h, latestCost_eq h.latest_pod.1]

theorem represents : Represents b.live.toFinset b.service b.shown where
  mem p hp := by
    obtain ⟨e, he⟩ := newest_of_live (List.mem_toFinset.mp hp)
    rw [shown_eq he, List.mem_toFinset]
    exact he.latest_pod.2
  same p hp := by
    obtain ⟨e, he⟩ := newest_of_live (List.mem_toFinset.mp hp)
    rw [shown_eq he]
    exact he.service

theorem cost_nonneg (e : Priced K) : 0 ≤ b.cost e := by
  have hcpu := mul_nonneg e.cpu_nonneg b.cpuPrice_nonneg
  have hbytes : (0 : K) ≤ (e.memoryWorkingSetBytes : K) / (Cost.bytesPerGb : K) :=
    div_nonneg (Nat.cast_nonneg _) (Nat.cast_nonneg _)
  exact add_nonneg hcpu (mul_nonneg hbytes b.memoryPrice_nonneg)

theorem latestCost_nonneg (p : PodRef) : 0 ≤ b.latestCost p := by
  unfold latestCost
  cases b.latest p with
  | none => exact le_refl _
  | some e => exact cost_nonneg e

theorem services_eq :
    ((Api.latestByService (b.rows tie)).map Prod.fst).toFinset = b.live.toFinset.image b.service := by
  ext s
  rw [List.mem_toFinset, List.mem_map, Finset.mem_image]
  constructor
  · intro h
    obtain ⟨⟨s', c⟩, hmem, rfl⟩ := h
    obtain ⟨e, he, _⟩ := mem_latestByService_iff.mp hmem
    exact ⟨e.pod, List.mem_toFinset.mpr he.latest_pod.2, he.service⟩
  · intro h
    obtain ⟨p, hp, rfl⟩ := h
    obtain ⟨e, he⟩ := newest_of_live (List.mem_toFinset.mp hp)
    exact ⟨(_, b.cost e), mem_latestByService_iff.mpr ⟨e, he, rfl⟩, rfl⟩

/-- **The headline adds up what one pod of each service costs.** -/
theorem total_eq : (b.summary tie).totalCostPerHour
    = ∑ s ∈ b.live.toFinset.image b.service, b.latestCost (b.shown s) := by
  have hcost : ∀ item ∈ Api.latestByService (b.rows tie),
      item.2 = b.latestCost (b.shown item.1) := by
    intro item hitem
    obtain ⟨e, he, hc⟩ := mem_latestByService_iff.mp hitem
    rw [latestCost_shown he, hc]
  calc (b.summary tie).totalCostPerHour
      = ((Api.latestByService (b.rows tie)).map Prod.snd).sum := rfl
    _ = (((Api.latestByService (b.rows tie)).map Prod.fst).map fun s => b.latestCost (b.shown s)).sum := by
        rw [List.map_map, List.map_congr_left hcost]
        rfl
    _ = ∑ s ∈ b.live.toFinset.image b.service, b.latestCost (b.shown s) := by
        rw [← services_eq, List.sum_toFinset _ (Api.latestByService_nodup _)]

/-- The others of a service cost nothing, said of pods and of events. -/
theorem oneCosts_iff :
    b.OneCosts ↔ ∀ p ∈ b.live.toFinset, p ≠ b.shown (b.service p) → b.latestCost p = 0 := by
  simp only [List.mem_toFinset]
  constructor
  · intro h p hp hne
    obtain ⟨e, he, _⟩ := latest_of_live hp
    obtain ⟨e', he'⟩ := newest_of_live hp
    obtain ⟨hlatest', hlive'⟩ := he'.latest_pod
    obtain ⟨hmem, hpod, _⟩ := latest_iff.mp he
    rw [shown_eq he'] at hne
    have hlt : e.time < e'.time := by
      refine lt_of_le_of_ne ?_ fun htime => hne ?_
      · obtain ⟨e'', he'', hrecent⟩ := latest_of_live hp
        rw [he] at he''
        obtain rfl := Option.some.inj he''
        exact he'.latest e hmem hrecent (by rw [hpod])
      · rw [← eq_of_time b.ordered hmem he'.mem htime, hpod]
    rw [latestCost_eq he]
    exact h p hp e'.pod hlive' he'.service.symm e e' he hlatest' hlt
  · intro h p hp q hq hsame e e' he he' hlt
    rw [← latestCost_eq he]
    refine h p hp fun hshown => ?_
    -- the pod shown was priced last
    obtain ⟨n, hn⟩ := newest_of_live hp
    rw [shown_eq hn] at hshown
    have hne : n = e := by
      have hl := hn.latest_pod.1
      rw [← hshown, he] at hl
      exact (Option.some.inj hl).symm
    obtain ⟨e'', he'', hrecent⟩ := latest_of_live hq
    rw [he'] at he''
    obtain rfl := Option.some.inj he''
    obtain ⟨hmem', hpod', _⟩ := latest_iff.mp he'
    have hle := hn.latest e' hmem' hrecent (by rw [hpod', ← hsame])
    rw [hne] at hle
    exact absurd hlt (not_lt.mpr hle)

/--
**The headline is the spend exactly if one pod of each service costs anything.**

For every cluster, every pricing and every order of the rows.
-/
theorem spend_iff (b : Billing K) (tie : Nat → Nat) : b.SpendShown tie ↔ b.OneCosts := by
  have hsum := represents (b := b).sum_eq_iff (f := b.latestCost) fun p _ => latestCost_nonneg p
  have hlive : ∑ p ∈ b.live.toFinset, b.latestCost p = (b.live.map b.latestCost).sum :=
    List.sum_toFinset _ b.nodup
  have heq : (b.summary tie).totalCostPerHour = _ := total_eq
  rw [oneCosts_iff, ← hsum, ← heq, hlive]
  constructor
  · intro h
    exact h.total
  · intro htotal
    refine ⟨htotal, ?_⟩
    intro entry hentry
    have hlatest : (entry.service, entry.costPerHour) ∈ Api.latestByService (b.rows tie) := by
      have hmem := List.mem_of_mem_take hentry
      rw [List.mem_insertionSort, List.mem_map] at hmem
      obtain ⟨item, hitem, rfl⟩ := hmem
      exact hitem
    obtain ⟨e, he, hc⟩ := mem_latestByService_iff.mp hlatest
    have hothers := hsum.mp (total_eq.symm.trans (htotal.trans hlive.symm))
    have hlive' := List.mem_toFinset.mpr he.latest_pod.2
    have hgroup := represents.sum_group hothers hlive'
    rw [he.service, latestCost_shown he, hc] at hgroup
    rw [← hgroup, ← List.sum_toFinset _ (b.nodup.filter _), List.toFinset_filter]
    simp

end

end Billing

namespace Scenario

def replica (name : ObjectName) : PodRef := ⟨shop, name⟩

def webReplica : ObjectName := ⟨"web-5d9-q2p", by decide, by decide⟩

/-- One core in use, priced at a time. -/
def usesCore (time : Time) (pod : PodRef) : Priced ℚ := ⟨time, pod, "c", "n", 1, 0, by decide⟩

/-- Two replicas of the Deployment `web`, each using one core at 0.04 an hour. -/
def replicated : Billing ℚ where
  pricing := ⟨0.04, 0.005⟩
  cpuPrice_nonneg := by decide +kernel
  memoryPrice_nonneg := by decide +kernel
  owners := owners
  now := minutes 1
  live := [replica webPod, replica webReplica]
  priced := [usesCore 1 (replica webReplica), usesCore 0 (replica webPod)]
  nodup := by decide
  ordered := by decide
  covers := by decide
  only := by decide

end Scenario

open Scenario in
/-- **Of two replicas the headline shows one**: 4 cents an hour, of the 8 they cost. -/
theorem replicas_counted_once :
    (replicated.summary id).totalCostPerHour = 0.04
      ∧ (replicated.live.map replicated.latestCost).sum = 0.08 ∧ ¬ replicated.SpendShown id := by
  have htotal : (replicated.summary id).totalCostPerHour = 0.04 := by decide +kernel
  have hspend : (replicated.live.map replicated.latestCost).sum = 0.08 := by decide +kernel
  refine ⟨htotal, hspend, fun h => ?_⟩
  have hsame := h.total
  rw [htotal, hspend] at hsame
  norm_num at hsame

end Proof

end HyperTrace
