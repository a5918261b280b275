import HyperTrace.Proof.Surge

/-!
# A cost event without a CPU reading

`CostEvent` lets `cpu_cores` be null, and the dumped event then carries the key with
`None`. The default in `message.get("cpu_cores", 0.0)` is for a missing key only, so the
`None` reaches the arithmetic of the CPU baseline and the handler ends there, before it
has looked at the cost. With any number in its place the cost is treated in one way:
the CPU score goes into the evidence, and decides nothing.
-/

namespace HyperTrace.Proof

open HyperTrace Effect Behaviour

variable {K : Type} [Scalar K]

variable {cfg : Settings} {P : SysConfig K → SysAct K → Prop} {c : SysConfig K}

/-- Ids are drawn in order, so the next one is new. -/
theorem anomaly_id_lt (h : (system cfg).Run P (World.empty K) c) :
    ∀ a ∈ c.world.anomalies, a.id < c.world.nextUuid := by
  refine all_anomalies h ?_ ?_
  · intro e pre row he hop
    have hcalls := calls_of_suffix h he
    rw [hop] at hcalls
    obtain ⟨_, f, id, now, t, _, _, rfl, ht⟩ := anomaly_inserted_by hcalls
    -- its thread has drawn the id before
    have hdrawn : (⟨.uuid4, .ok id⟩ : SysCall K) ∈ hist pre e.tid := by
      rw [ht]
      exact List.mem_cons_self ..
    obtain ⟨e', pre', x, he', _, hcall, hx⟩ :=
      answered h ((List.suffix_cons e pre).trans he) hdrawn
    obtain ⟨hid, hnext⟩ := exec_uuid4 (congrArg Prod.fst hx)
    rw [hx] at hnext
    have hmem : e' ∈ c.trace := (he'.trans ((List.suffix_cons e pre).trans he)).subset
      (List.mem_cons_self ..)
    have hle := (h.le_of_mem (grows cfg) hmem).nextUuid
    show id < c.world.nextUuid
    rw [hid]
    exact lt_of_lt_of_le (by rw [hnext]; exact Nat.lt_succ_self _) hle
  · intro e pre id cl ev a _ _ hlt
    exact hlt

/-- The handler run on its own, with database and broker available. -/
def costHandled (tie : Nat → Nat) (w : World K) (m : CostEvent K) : Except Err Unit × World K :=
  (handleCost m).run exec (sound tie) w

/-- The handler ends, and has treated the cost as it would have with so many cores. -/
structure TreatedAs (tie : Nat → Nat) (w : World K) (m : CostEvent K) (cores : K) : Prop where
  ends : (costHandled tie w m).1 = .ok ()
  /-- Buckets and counters. -/
  baseline : (costHandled tie w m).2.baselines m.service metricCost
    = (costHandled tie w { m with cpuCores := some (some cores) }).2.baselines m.service metricCost
  signal : (costHandled tie w m).2.trafficZ
    = (costHandled tie w { m with cpuCores := some (some cores) }).2.trafficZ
  /-- The verdict on the detection condition, and everything recorded with it. -/
  anomalies : (costHandled tie w m).2.anomalies.map rowWithoutCpu
    = (costHandled tie w { m with cpuCores := some (some cores) }).2.anomalies.map rowWithoutCpu

theorem costHandled_null (tie : Nat → Nat) (w : World K) {m : CostEvent K}
    (hnull : m.cpuCores = some none) : costHandled tie w m = (.error .typeError, w) := by
  have hcpu : m.cpuCores.getD (some 0) = none := by rw [hnull]; rfl
  unfold costHandled
  rw [handleCost_eq, hcpu]
  rfl

/-- **The cost is treated in one way, whatever the number of cores.** -/
theorem treatedAs_of_number (h : (system cfg).Run P (World.empty K) c) (tie : Nat → Nat)
    {m : CostEvent K} {cpu : K} (hcpu : m.cpuCores.getD (some 0) = some cpu) (cores : K) :
    TreatedAs tie c.world m cores := by
  have hfresh : ∀ a ∈ c.world.anomalies, a.id ≠ c.world.nextUuid :=
    fun a ha => (anomaly_id_lt h a ha).ne
  generalize c.world = w at hfresh
  have hrun : costHandled tie w m = _ := handleCost_run tie w m hcpu
  have hcores : { m with cpuCores := some (some cores) }.cpuCores.getD (some 0) = some cores := rfl
  have hrun' : costHandled tie w { m with cpuCores := some (some cores) } = _ :=
    handleCost_run tie w { m with cpuCores := some (some cores) } hcores
  have hsame :
      (Reading.mk { m with cpuCores := some (some cores) } (w.trafficZ m.service)).shouldFlag
          (profileOf w m.service metricCost)
        = (Reading.mk m (w.trafficZ m.service)).shouldFlag (profileOf w m.service metricCost) := rfl
  rw [hsame] at hrun'
  have hbase : (judgedWorld w m cpu).baselines m.service metricCost
      = (judgedWorld w { m with cpuCores := some (some cores) } cores).baselines m.service
        metricCost := by
    simp [judgedWorld, World.saveProfile]
    rfl
  cases hflag : (Reading.mk m (w.trafficZ m.service)).shouldFlag
      (profileOf w m.service metricCost) with
  | false =>
      rw [hflag, if_neg Bool.false_ne_true] at hrun hrun'
      exact ⟨by rw [hrun], by rw [hrun, hrun']; exact hbase, by rw [hrun, hrun']; rfl,
        by rw [hrun, hrun']; rfl⟩
  | true =>
      rw [hflag, if_pos rfl, flagAnomaly_run tie _ (by exact hfresh) (by exact flagOf_allowed ..)]
        at hrun hrun'
      refine ⟨by rw [hrun], by rw [hrun, hrun']; exact hbase, by rw [hrun, hrun']; rfl, ?_⟩
      rw [hrun, hrun']
      show List.map rowWithoutCpu (w.anomalies ++ [_]) = List.map rowWithoutCpu (w.anomalies ++ [_])
      rw [List.map_append, List.map_append]
      exact congrArg (fun row => w.anomalies.map rowWithoutCpu ++ [row])
        (rowWithoutCpu_flagOf hflag (some (some cores)) _ _ w.nextUuid w.clock)

/-- **When a cost event is scored, whatever it says about the CPU**: exactly unless it says null. -/
theorem cost_scored_iff (h : (system cfg).Run P (World.empty K) c) (tie : Nat → Nat)
    (m : CostEvent K) :
    (∀ cores, TreatedAs tie c.world m cores) ↔ m.cpuCores ≠ some none := by
  constructor
  · intro htreated hnull
    have hends := (htreated 0).ends
    rw [costHandled_null tie c.world hnull] at hends
    cases hends
  · intro hnull cores
    cases hcpu : m.cpuCores with
    | none =>
        have hzero : m.cpuCores.getD (some 0) = some 0 := by rw [hcpu]; rfl
        exact treatedAs_of_number h tie hzero cores
    | some v =>
        cases v with
        | none => exact absurd hcpu hnull
        | some cpu =>
            have hsome : m.cpuCores.getD (some 0) = some cpu := by rw [hcpu]; rfl
            exact treatedAs_of_number h tie hsome cores

/-- The first reading of a workload, its cost known and its CPU not. -/
def unmeasured : CostEvent ℚ where
  timestamp := 0
  service := "shop/victim"
  resource := ⟨"local", "shop", "node-1", some "victim-1", none, some "victim"⟩
  costPerHour := 1 / 50
  cpuCores := some none

theorem unmeasured_lost :
    (costHandled id (World.empty ℚ) unmeasured).1 = .error .typeError
      ∧ ((costHandled id (World.empty ℚ) unmeasured).2.baselines "shop/victim" metricCost).isNone
      ∧ (costHandled id (World.empty ℚ) { unmeasured with cpuCores := some (some 0) }).1 = .ok ()
      ∧ ((costHandled id (World.empty ℚ) { unmeasured with cpuCores := some (some 0) }).2.baselines
        "shop/victim" metricCost).isSome := by
  decide +kernel

open Scenario in
theorem cost_scored_iff_unmeasured :
    (∀ cores, TreatedAs id (World.empty ℚ) unmeasured cores) ↔ unmeasured.cpuCores ≠ some none :=
  @cost_scored_iff ℚ _ settings (fun _ _ => True) _ .init id unmeasured

end HyperTrace.Proof
