import HyperTrace.Proof.Alone
import HyperTrace.Proof.Cluster
import Mathlib.Order.WithBot

/-!
# Do the actions contain?

Throttle sets the CPU limit to a fixed text and freeze sets the replica maximum to
the reported count. Both look whether the target value is already there, neither
compares it with what is. So each lowers a limit, or raises one, depending on
which side of the target it was found.

What a quantity is worth is for the API server to say; here it is a parameter, of
which only the value of `100m` is used.
-/

namespace HyperTrace.Proof

open HyperTrace Effect Executor

variable {K : Type}

/-! ## What is limited -/

/-- The effective CPU limit of the first container, no limit being infinite. -/
def cpuLimitOf (cores : String → ℚ) (cl : Cluster) (service : String) : WithTop ℚ :=
  match cl.deployment (splitService service).1 (splitService service).2 with
  | some d =>
      match d.first.cpuLimit with
      | some q => (cores q : WithTop ℚ)
      | none => ⊤
  | none => ⊤

/-- The replica maximum of the autoscaler that scales the workload. -/
def maxReplicasOf (cl : Cluster) (service : String) : Nat :=
  match cl.hpaOf (splitService service).1 (splitService service).2 with
  | some h => h.maxReplicas
  | none => 0

/-- Once the action was executed, whatever the environment did, the measure is not larger. -/
def NeverRaises [Scalar K] {μ : Type} [LE μ] (action : Py K (Outcome K)) (measure : Cluster → μ)
    (w : World K) : Prop :=
  ∀ choices out w', action.run exec choices w = (.ok out, w') → out.status = .executed →
    measure w'.cluster ≤ measure w.cluster

/-- The action came to an end and was executed. -/
def Succeeds (r : Except Err (Outcome K) × World K) : Prop :=
  ∃ out w', r = (.ok out, w') ∧ out.status = .executed

/-! ## Throttle -/

theorem readOrMissing_ensures [Scalar K] (w : World K) (name ns : String) :
    (readOrMissing name ns).Ensures exec
      (fun r w' => w' = w ∧ ∀ d, r = .ok (some d) → w.cluster.deployment ns name = some d) w := by
  have hworld : ∀ x, (exec w (.readDeployment name ns) x).2 = w :=
    fun x => faulty_snd (p := (· = w)) rfl rfl
  refine Prog.Ensures.tryCatch (R := fun r w' => w' = w
    ∧ ∀ d, r = .ok (some d) → w.cluster.deployment ns name = some d) ?_ (fun a w' h => h) ?_
  · refine Prog.Ensures.call (fun x d hd => ⟨hworld x, ?_⟩) fun x e _ =>
      ⟨hworld x, by rintro d ⟨⟩⟩
    intro d' hx
    cases hx
    obtain ⟨_, hr⟩ := faulty_ok hd
    dsimp only at hr
    split at hr
    · rename_i d' hd'
      cases hr
      exact hd'
    · cases hr
  · intro e w' hx
    obtain ⟨hw, _⟩ := hx
    exact .ite (fun _ => ⟨hw, by rintro d ⟨⟩⟩) fun _ => ⟨hw, by rintro d ⟨⟩⟩

/-- **What a throttle that was executed has done, and what it refers to.** -/
theorem throttle_ensures [Scalar K] (w : World K) {service ns name : String}
    (hs : splitService service = (ns, name)) :
    (throttle service).Ensures exec (fun r w' => ∀ out, r = .ok out → out.status = .executed →
      ∃ d, w.cluster.deployment ns name = some d ∧ d.first.cpuLimit ≠ some throttleCpuLimit
        ∧ w'.cluster = w.cluster.setDeployment ns name (d.limitFirst (some throttleCpuLimit))
        ∧ out.rollbackRef
          = some (Json.dumps (throttleRef ns name d.first.name d.first.cpuLimit))) w := by
  unfold throttle
  rw [hs]
  refine Prog.Ensures.bind (readOrMissing_ensures w _ _) ?_ ?_
  · intro found w₁ h
    obtain ⟨rfl, hd⟩ := h
    cases found with
    | none => rintro out ⟨⟩ ⟨⟩
    | some d =>
        have hd' := hd d rfl
        refine .ite (fun _ => ?_) fun hne => ?_
        · intro out h hx
          cases h
          cases hx
        · have hpatch := Cluster.patchDeployment_first (K := K) hd' throttleCpuLimit
          refine Prog.Ensures.call (fun x a ha => ?_) fun x e _ => ?_
          · intro out h _
            cases h
            refine ⟨d, hd', hne, ?_, rfl⟩
            obtain ⟨hf, _⟩ := faulty_ok ha
            simp only [exec, hf, faulty, hpatch]
          · intro out h
            cases h
  · intro e w' _ out h
    cases h

/-- A throttle that finds another limit, and is not disturbed, is executed. -/
theorem throttle_run [Scalar K] {w : World K} {service ns name : String}
    (hs : splitService service = (ns, name)) {d : Deployment}
    (hd : w.cluster.deployment ns name = some d)
    (hne : d.first.cpuLimit ≠ some throttleCpuLimit) :
    Succeeds ((throttle service).run exec (sound id) w) := by
  have hread : (readOrMissing name ns).run exec (sound id) w = (.ok (some d), w) := by
    simp [readOrMissing, Prog.perform, Prog.tryCatch, Prog.bind, sound, exec, faulty, hd]
  have hpatch := Cluster.patchDeployment_first (K := K) hd throttleCpuLimit
  have hexec : exec w (.patchDeployment name ns d.first.name (.str throttleCpuLimit)) ⟨.none, id⟩
      = (.ok (), { w with cluster :=
          w.cluster.setDeployment ns name (d.limitFirst (some throttleCpuLimit)) }) := by
    simp only [exec, faulty, hpatch]
    rfl
  unfold throttle
  rw [hs, run_bind hread]
  dsimp only
  rw [if_neg hne]
  exact (congrArg Succeeds (run_call hexec)).mpr ⟨_, _, rfl, rfl⟩

/-! ## Freeze -/

/-- **What a freeze that was executed has done, and what it refers to.** -/
theorem freeze_ensures [Scalar K] (w : World K) {service ns name : String}
    (hs : splitService service = (ns, name)) :
    (freezeScaling service).Ensures exec (fun r w' => ∀ out, r = .ok out → out.status = .executed →
      ∃ h n, w.cluster.hpaOf ns name = some h ∧ h.currentReplicas = some n ∧ h.maxReplicas ≠ n
        ∧ (∃ h', h.withMaxReplicas n = some h' ∧ w'.cluster = w.cluster.setHpa ns h.name h')
        ∧ out.rollbackRef = some (Json.dumps (freezeRef ns h.name h.maxReplicas))) w := by
  unfold freezeScaling
  rw [hs]
  refine Prog.Ensures.call (fun x hpas hlist => ?_) fun x e _ => by rintro out ⟨⟩
  have hworld : (exec w (.listHpas ns) x).2 = w := faulty_snd (p := (· = w)) rfl rfl
  obtain ⟨_, hhpas⟩ := faulty_ok hlist
  obtain rfl : w.cluster.hpas ns = hpas := Except.ok.inj hhpas
  rw [hworld]
  -- the early returns report that nothing was executed
  cases hfind : (w.cluster.hpas ns).find? fun h => h.target = name with
  | none => rintro out ⟨⟩ ⟨⟩
  | some h =>
      dsimp only
      cases hcur : h.currentReplicas with
      | none => rintro out ⟨⟩ ⟨⟩
      | some n =>
          refine .ite (fun _ => by rintro out ⟨⟩ ⟨⟩) fun _ => ?_
          refine .ite (fun _ => by rintro out ⟨⟩ ⟨⟩) fun hne => ?_
          refine Prog.Ensures.call (fun x a ha => ?_) fun x e _ => by rintro out ⟨⟩
          intro out hx _
          cases hx
          obtain ⟨hf, hok⟩ := faulty_ok ha
          cases hmax : h.withMaxReplicas n with
          | none =>
              rw [Cluster.patchHpa_none (Cluster.hpa_of_hpaOf hfind) hmax] at hok
              cases hok
          | some h' =>
              refine ⟨h, n, hfind, hcur, hne, ⟨h', hmax, ?_⟩, rfl⟩
              simp only [exec, hf, faulty, Cluster.patchHpa_some (Cluster.hpa_of_hpaOf hfind) hmax]

/-- A freeze that finds more replicas than the maximum, and is not disturbed, is executed. -/
theorem freeze_run [Scalar K] {w : World K} {service ns name : String}
    (hs : splitService service = (ns, name)) {h : Hpa} (hh : w.cluster.hpaOf ns name = some h)
    {n : Nat} (hn : h.currentReplicas = some n) (hlt : h.maxReplicas < n) :
    Succeeds ((freezeScaling service).run exec (sound id) w) := by
  have hvalid : 1 ≤ n ∧ h.minReplicas ≤ n := by
    have := h.valid
    omega
  obtain ⟨h', hmax⟩ : ∃ h', h.withMaxReplicas n = some h' := ⟨_, dif_pos hvalid⟩
  have hexec : exec w (.patchHpa h.name ns (.int n)) ⟨.none, id⟩
      = (.ok (), { w with cluster := w.cluster.setHpa ns h.name h' }) := by
    simp only [exec, faulty, Cluster.patchHpa_some (Cluster.hpa_of_hpaOf hh) hmax]
    rfl
  have hfind : (w.cluster.hpas ns).find? (fun h => h.target = name) = some h := hh
  unfold freezeScaling
  rw [hs]
  dsimp only
  refine (congrArg Succeeds (run_call (o := .listHpas ns) (a := w.cluster.hpas ns) (v := w)
    rfl)).mpr ?_
  rw [hfind]
  dsimp only
  rw [hn]
  dsimp only
  rw [if_neg (by omega), if_neg (by omega)]
  exact (congrArg Succeeds (run_call hexec)).mpr ⟨_, _, rfl, rfl⟩

/-! ## Both -/

/-- The limit of the first container, where there is one, is worth at least 100m. -/
def LimitAbove (cores : String → ℚ) (cl : Cluster) (service : String) : Prop :=
  ∀ d q, cl.deployment (splitService service).1 (splitService service).2 = some d →
    d.first.cpuLimit = some q → 1 / 10 ≤ cores q

/-- The autoscaler of the workload reports no more replicas than it allows. -/
def CountBelow (cl : Cluster) (service : String) : Prop :=
  ∀ h n, cl.hpaOf (splitService service).1 (splitService service).2 = some h →
    h.currentReplicas = some n → n ≤ h.maxReplicas

theorem throttle_never_raises_iff [Scalar K] {cores : String → ℚ}
    (hcores : cores throttleCpuLimit = 1 / 10) (w : World K) (service : String) :
    NeverRaises (throttle service) (cpuLimitOf cores · service) w
      ↔ LimitAbove cores w.cluster service := by
  obtain ⟨ns, name, hs⟩ : ∃ ns name, splitService service = (ns, name) := ⟨_, _, rfl⟩
  -- what the throttle leaves is a tenth of a core
  have hafter : ∀ d : Deployment,
      cpuLimitOf cores (w.cluster.setDeployment ns name (d.limitFirst (some throttleCpuLimit))) service
        = ((1 / 10 : ℚ) : WithTop ℚ) := by
    intro d
    simp only [cpuLimitOf, hs, Cluster.setDeployment_self, Deployment.limitFirst_cpuLimit, hcores]
  constructor
  · intro hnever d q hd hq
    rw [hs] at hd
    by_cases hne : d.first.cpuLimit = some throttleCpuLimit
    · rw [hne] at hq
      rw [← Option.some.inj hq, hcores]
    · obtain ⟨out, w', hrun, hout⟩ := throttle_run hs hd hne
      have hle := hnever _ _ _ hrun hout
      have hens := (throttle_ensures w hs).run (sound id)
      rw [hrun] at hens
      obtain ⟨_, _, _, hw', _⟩ := hens out rfl hout
      dsimp only at hw' hle
      rw [hw', hafter] at hle
      simp only [cpuLimitOf, hs, hd, hq] at hle
      exact WithTop.coe_le_coe.mp hle
  · intro habove choices out w' hrun hout
    have hens := (throttle_ensures w hs).run choices
    rw [hrun] at hens
    obtain ⟨d, hd, _, hw', _⟩ := hens out rfl hout
    dsimp only at hw' ⊢
    rw [hw', hafter]
    simp only [cpuLimitOf, hs, hd]
    cases hq : d.first.cpuLimit with
    | none => exact le_top
    | some q => exact WithTop.coe_le_coe.mpr (habove d q (hs ▸ hd) hq)

theorem freeze_never_raises_iff [Scalar K] (w : World K) (service : String) :
    NeverRaises (freezeScaling service) (maxReplicasOf · service) w
      ↔ CountBelow w.cluster service := by
  obtain ⟨ns, name, hs⟩ : ∃ ns name, splitService service = (ns, name) := ⟨_, _, rfl⟩
  -- what the freeze leaves is the current count
  have hafter : ∀ {h h' : Hpa} {n : Nat}, w.cluster.hpaOf ns name = some h →
      h.withMaxReplicas n = some h' → maxReplicasOf (w.cluster.setHpa ns h.name h') service = n := by
    intro h h' n hh hmax
    obtain ⟨_, hset⟩ := Hpa.withMaxReplicas_set hmax
    have hseen : (w.cluster.setHpa ns h.name h').hpaOf ns name = some h' :=
      Cluster.hpaOf_setHpa hh (by rw [hset]) (by rw [hset])
    simp only [maxReplicasOf, hs, hseen]
    rw [hset]
  constructor
  · intro hnever h n hh hn
    rw [hs] at hh
    by_contra hlt
    obtain ⟨out, w', hrun, hout⟩ := freeze_run hs hh hn (not_le.mp hlt)
    have hle := hnever _ _ _ hrun hout
    have hens := (freeze_ensures w hs).run (sound id)
    rw [hrun] at hens
    obtain ⟨h₁, n₁, hh₁, hn₁, _, ⟨h', hmax, hw'⟩, _⟩ := hens out rfl hout
    obtain rfl : h = h₁ := Option.some.inj (hh.symm.trans hh₁)
    obtain rfl : n = n₁ := Option.some.inj (hn.symm.trans hn₁)
    dsimp only at hw' hle
    rw [hw', hafter hh hmax] at hle
    simp only [maxReplicasOf, hs, hh] at hle
    exact hlt hle
  · intro hbelow choices out w' hrun hout
    have hens := (freeze_ensures w hs).run choices
    rw [hrun] at hens
    obtain ⟨h, n, hh, hn, _, ⟨h', hmax, hw'⟩, _⟩ := hens out rfl hout
    dsimp only at hw' ⊢
    rw [hw', hafter hh hmax]
    simp only [maxReplicasOf, hs, hh]
    exact hbelow h n (hs ▸ hh) hn

/--
**When throttle and freeze only contain.**

Exactly where the limit that throttle finds is worth at least 100m, and freeze finds
no more replicas than the maximum.
-/
theorem only_contains_iff [Scalar K] (cores : String → ℚ) (hcores : cores throttleCpuLimit = 1 / 10)
    (w : World K) (service : String) :
    NeverRaises (throttle service) (cpuLimitOf cores · service) w
        ∧ NeverRaises (freezeScaling service) (maxReplicasOf · service) w
      ↔ LimitAbove cores w.cluster service ∧ CountBelow w.cluster service :=
  and_congr (throttle_never_raises_iff hcores w service) (freeze_never_raises_iff w service)

/-! ## On both sides of the target -/

/-- One run that was executed and left more than it found. -/
theorem raises_of_run [Scalar K] {μ : Type} [LE μ] {action : Py K (Outcome K)}
    {measure : Cluster → μ} {w : World K} (choices : Nat → Choice)
    (hout : (action.run exec choices w).1.toOption.map Outcome.status = some .executed)
    (hraised : ¬ measure (action.run exec choices w).2.cluster ≤ measure w.cluster) :
    ¬ NeverRaises action measure w := by
  intro hnever
  obtain ⟨out, hres, hstatus⟩ := Option.map_eq_some_iff.mp hout
  refine hraised (hnever choices out _ (Prod.ext ?_ rfl) hstatus)
  cases hr : (action.run exec choices w).1 with
  | error e => rw [hr] at hres; cases hres
  | ok out' => rw [hr] at hres; cases hres; rfl

namespace Scenario

/-- Whole cores, or with an `m` thousandths of one. -/
def cpuCores (q : String) : ℚ :=
  let digits (cs : List Char) : ℚ := (cs.foldl (fun n c => 10 * n + (c.toNat - 48)) 0 : ℕ)
  match q.toList.reverse with
  | 'm' :: cs => digits cs.reverse / 1000
  | cs => digits cs.reverse

/-- A Deployment of the given limit, and its autoscaler. -/
def workload (limit : String) (maxReplicas current : Nat) (h : 1 ≤ maxReplicas) : Cluster where
  deployment ns name :=
    if ns = "shop" ∧ name = "victim" then
      some
        { first := ⟨"app", some ⟨some fun k => if k = "cpu" then some limit else none⟩⟩
          rest := []
          names_nodup := by simp }
    else none
  hpas ns :=
    if ns = "shop" then [⟨"victim-hpa", "victim", 1, maxReplicas, some current, ⟨h, h⟩⟩] else []
  hpa_names ns := by split <;> simp

def running (cl : Cluster) : World ℚ := { World.empty ℚ with cluster := cl }

end Scenario

open Scenario in
/-- One core and four replicas of at most ten: both actions are executed, and both contain. -/
theorem only_contains_above :
    let w := running (workload "1" 10 4 (by decide))
    (NeverRaises (throttle "shop/victim") (cpuLimitOf cpuCores · "shop/victim") w
      ∧ NeverRaises (freezeScaling "shop/victim") (maxReplicasOf · "shop/victim") w)
    ∧ ((throttle "shop/victim").run exec (sound id) w).1.toOption.map Outcome.status
        = some .executed
    ∧ ((freezeScaling "shop/victim").run exec (sound id) w).1.toOption.map Outcome.status
        = some .executed := by
  refine ⟨(only_contains_iff cpuCores (by decide +kernel) _ _).mpr ⟨?_, ?_⟩,
    by decide +kernel, by decide +kernel⟩
  · intro d q hd hq
    cases hd
    cases hq
    decide +kernel
  · intro h n hh hn
    cases hh
    cases hn
    decide

open Scenario in
/--
**Both actions can raise what they are to contain.**

A limit of 50m becomes one of 100m, and a maximum of three, exceeded by five
replicas, becomes five.
-/
theorem actions_raise :
    let w := running (workload "50m" 3 5 (by decide))
    let throttled := (throttle "shop/victim").run exec (sound id) w
    let frozen := (freezeScaling "shop/victim").run exec (sound id) w
    throttled.1.toOption.map Outcome.status = some .executed
      ∧ cpuLimitOf cpuCores w.cluster "shop/victim" = ((1 / 20 : ℚ) : WithTop ℚ)
      ∧ cpuLimitOf cpuCores throttled.2.cluster "shop/victim" = ((1 / 10 : ℚ) : WithTop ℚ)
      ∧ frozen.1.toOption.map Outcome.status = some .executed
      ∧ maxReplicasOf w.cluster "shop/victim" = 3
      ∧ maxReplicasOf frozen.2.cluster "shop/victim" = 5
      ∧ ¬ NeverRaises (throttle "shop/victim") (cpuLimitOf cpuCores · "shop/victim") w
      ∧ ¬ NeverRaises (freezeScaling "shop/victim") (maxReplicasOf · "shop/victim") w := by
  dsimp only
  exact ⟨by decide +kernel, by decide +kernel, by decide +kernel, by decide +kernel,
    by decide +kernel, by decide +kernel,
    raises_of_run (sound id) (by decide +kernel) (by decide +kernel),
    raises_of_run (sound id) (by decide +kernel) (by decide +kernel)⟩

end HyperTrace.Proof
