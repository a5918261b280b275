import HyperTrace.Proof.Authority
import HyperTrace.Proof.Variation

/-!
# The CPU gates nothing

The condition asks for a resource to have moved and for the cost to have moved, and
counts the cost among the resources. So the CPU value of a reading flows into a
profile of its own, into a score, and into the numbers of what is flagged for the
cost; it decides neither what is learned nor what is flagged. Two runs of the
detector that differ in CPU values only are compared here, at every interleaving and
whatever fails.
-/

namespace HyperTrace.Proof

open HyperTrace Effect Behaviour

variable {K : Type} [Scalar K]

/-! ## What the CPU may change -/

/-- A number, where the message has one; an absent value counts as zero. -/
def NumericCpu (m : CostEvent K) : Prop := ∃ v, m.cpuCores.getD (some 0) = some v

/-- The readings are the same but for the CPU, which is a number in both. -/
def SameButCpu (m m' : CostEvent K) : Prop :=
  NumericCpu m ∧ NumericCpu m' ∧ ∃ cores, m' = { m with cpuCores := cores }

def messageWithoutCpu (m : AnomalyMessage K) : AnomalyMessage K :=
  { m with score := 0, confidence := none, evidence := evidenceWithoutCpu m.evidence }

/-- Everything is equal, but the CPU baselines and the numbers computed from them. -/
def otherCpu : Variation K where
  reading := SameButCpu
  profile metric p p' := metric ≠ metricCpu → p = p'
  baseline metric row row' := metric ≠ metricCpu → row = row'
  anomaly row row' := rowWithoutCpu row = rowWithoutCpu row'
  message m m' := messageWithoutCpu m = messageWithoutCpu m'
  absent _ _ := rfl
  loaded h hne := congrArg BaselineRow.profile (h hne)
  traffic h := h (by decide)
  same _ _ := rfl
  id {row row'} h := by
    have hid : (rowWithoutCpu row).id = (rowWithoutCpu row').id := congrArg AnomalyRow.id h
    exact hid

theorem messageWithoutCpu_flagOf {m : CostEvent K} {p : Profile K} {tz : Option K}
    (hflag : (Reading.mk m tz).shouldFlag p = true) (cores : Option (Option K)) (cpuZ cpuZ' : K)
    (id : Uuid) (now : Time) :
    messageWithoutCpu ((flagOf m p tz cpuZ).message id now)
      = messageWithoutCpu ((flagOf { m with cpuCores := cores } p tz cpuZ').message id now) := by
  have hclass := flagOf_unclassified hflag cpuZ
  have hclass' : (flagOf { m with cpuCores := cores } p tz cpuZ').classification
      = .unclassified := flagOf_unclassified hflag cpuZ'
  unfold messageWithoutCpu Flag.message
  rw [hclass, hclass']
  rfl

theorem otherCpu_respected : (otherCpu (K := K)).Respected := by
  intro m m' hm
  obtain ⟨⟨v, hv⟩, ⟨v', hv'⟩, cores, rfl⟩ := hm
  have hcost : metricCost ≠ metricCpu := by decide
  refine ⟨v, v', rfl, rfl, hv, hv', ?_, ?_, ?_, ?_⟩
  · intro p p' now _ hne
    exact absurd rfl hne
  · intro p p' tz now hp _
    rw [hp hcost]
    rfl
  · intro p p' tz hp
    rw [hp hcost]
    rfl
  · intro p p' q q' tz hp _ hflag id now
    obtain rfl := hp hcost
    exact ⟨rowWithoutCpu_flagOf hflag cores _ _ id now,
      messageWithoutCpu_flagOf hflag cores _ _ id now⟩

/-! ## What two runs have in common -/

/--
Two runs flagged the same readings and published the same about them, and have the
same baselines but for the CPU.
-/
structure CommonButCpu (c c' : SysConfig K) : Prop where
  flagged : c.trace.filterMap flaggedIn = c'.trace.filterMap flaggedIn
  published : List.Forall₂ (fun a b => a.1 = b.1 ∧ messageWithoutCpu a.2 = messageWithoutCpu b.2)
    (c.trace.filterMap publishedIn) (c'.trace.filterMap publishedIn)
  signals : c.trace.filterMap signalledIn = c'.trace.filterMap signalledIn
  baselines : ∀ s metric, metric ≠ metricCpu → c.world.baselines s metric = c'.world.baselines s metric
  anomalies : List.Forall₂ (fun a b => rowWithoutCpu a = rowWithoutCpu b) c.world.anomalies
    c'.world.anomalies
  trafficZ : c.world.trafficZ = c'.world.trafficZ

/--
**CPU readings never gate a detection.**

Whatever the schedule of the two consumers, whatever fails and from whatever state:
if the CPU values of the cost messages are replaced by other numbers, the same
schedule runs to its end again, and the two runs have everything in common but the
CPU baselines and, in what is flagged, score, `cpu_z` and confidence.
-/
theorem cpu_gates_nothing {cfg : Settings} {w : World K} {acts acts' : List (SysAct K)}
    (hacts : otherCpu.Schedules acts acts') {c : SysConfig K}
    (h : (system cfg).steps (fun _ _ => true) ((system cfg).init w) acts = some c) :
    ∃ c', (system cfg).steps (fun _ _ => true) ((system cfg).init w) acts' = some c'
      ∧ CommonButCpu c c' := by
  have hw : otherCpu.Worlds w w := by
    refine ⟨rfl, rfl, List.forall₂_same.mpr fun _ _ => rfl, fun s metric => ?_,
      List.forall₂_same.mpr fun _ _ => rfl, List.forall₂_same.mpr fun _ _ => rfl, rfl, rfl⟩
    cases w.baselines s metric with
    | none => exact .none
    | some row => exact .some fun _ => rfl
  obtain ⟨c', h', hc⟩ := Variation.run_together otherCpu_respected hacts hw h
  have hpublished := Coupling.filterMap_rel (fun e e' => Variation.publishedIn_rel) hc.trace
  refine ⟨c', h', Coupling.filterMap_eq (fun e e' => Variation.flaggedIn_eq) hc.trace, hpublished,
    Coupling.filterMap_eq (fun e e' => Variation.signalledIn_eq) hc.trace, ?_, hc.world.anomalies,
    hc.world.trafficZ⟩
  intro s metric hne
  exact hc.world.baseline_eq (fun row row' hrow => hrow hne) s

namespace Scenario

/-- A reading, with the given number of cores in use, and the first `n` calls of its handler. -/
def readingUsing (tid n : Nat) (value cores : ℚ) : List (SysAct ℚ) :=
  .start (.cost
    { timestamp := 0
      service := victim
      resource := ⟨"c", "shop", "n", none, none, none⟩
      costPerHour := value
      cpuCores := some (some cores) }) :: calls tid n

/-- Five readings to learn from and three at ten times the cost, the last of which is flagged. -/
def spikeUsing (calm busy : ℚ) : List (SysAct ℚ) :=
  .start (.traffic ⟨0, victim, 50⟩) :: calls 0 5 ++ readingUsing 1 8 10 calm ++
    readingUsing 2 8 11 calm ++ readingUsing 3 8 10 calm ++ readingUsing 4 8 11 calm ++
    readingUsing 5 8 10 calm ++ readingUsing 6 8 100 busy ++ readingUsing 7 8 100 busy ++
    readingUsing 8 12 100 busy

theorem calls_schedules (V : Variation ℚ) (tid n : Nat) :
    V.Schedules (calls tid n) (calls tid n) := by
  refine List.forall₂_same.mpr fun a ha => ?_
  rw [List.eq_of_mem_replicate ha]
  exact .step tid Choice.ok

theorem readingUsing_schedules (tid n : Nat) (value cores cores' : ℚ) :
    otherCpu.Schedules (readingUsing tid n value cores) (readingUsing tid n value cores') :=
  .cons (.start (.cost ⟨⟨cores, rfl⟩, ⟨cores', rfl⟩, some (some cores'), rfl⟩))
    (calls_schedules otherCpu tid n)

theorem spikeUsing_schedules (calm busy calm' busy' : ℚ) :
    otherCpu.Schedules (spikeUsing calm busy) (spikeUsing calm' busy') := by
  have htraffic : otherCpu.Schedules (.start (.traffic ⟨0, victim, 50⟩) :: calls 0 5)
      (.start (.traffic ⟨0, victim, 50⟩) :: calls 0 5) :=
    .cons (.start (.traffic _)) (calls_schedules otherCpu 0 5)
  unfold spikeUsing
  repeat' apply List.rel_append
  all_goals first | exact htraffic | exact readingUsing_schedules ..

/-- Exactly one reading was flagged, and that by the thread of the last. -/
def flagsLast (o : Option (SysConfig ℚ)) : Bool :=
  match o with
  | some c => c.trace.filterMap flaggedIn = [8]
  | none => false

end Scenario

open Scenario in
/-- The CPU stands out with the cost in one run and never moves in the other: one flag in both. -/
theorem cpu_gates_nothing_cores :
    ∃ c c' : SysConfig ℚ,
      (system settings).steps (fun _ _ => true) ((system settings).init (World.empty ℚ))
          (spikeUsing 1 9) = some c
        ∧ (system settings).steps (fun _ _ => true) ((system settings).init (World.empty ℚ))
          (spikeUsing 2 2) = some c' ∧ CommonButCpu c c'
        ∧ c.trace.filterMap flaggedIn = [8] ∧ c'.trace.filterMap flaggedIn = [8] := by
  have hrun : flagsLast ((system settings).steps (fun _ _ => true)
      ((system settings).init (World.empty ℚ)) (spikeUsing 1 9)) = true := by decide +kernel
  cases hc : (system settings).steps (fun _ _ => true) ((system settings).init (World.empty ℚ))
      (spikeUsing 1 9) with
  | none =>
      rw [hc] at hrun
      cases hrun
  | some c =>
      rw [hc] at hrun
      have hflag : c.trace.filterMap flaggedIn = [8] := of_decide_eq_true hrun
      obtain ⟨c', hc', hcommon⟩ := cpu_gates_nothing (spikeUsing_schedules 1 9 2 2) hc
      exact ⟨c, c', rfl, hc', hcommon, hflag, hcommon.flagged ▸ hflag⟩

end HyperTrace.Proof
