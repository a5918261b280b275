import HyperTrace.Proof.Shift

/-!
# A flash sale, to its end

Cost and traffic rise together and stay. The detector learns both new values, each
at the pace of its own bucket, so both scores fall. What keeps the surge from being
flagged is the traffic score, and it may fall first: once it is below 1 while the
cost still scores above 3, the readings qualify, the cost bucket stops learning, and
the third of them is flagged.

On the memory of the service the two sequences of scores have a closed form, and
whether the surge is ever flagged is decided by comparing them.
-/

namespace HyperTrace.Behaviour

open Numeric

variable {K : Type}

def Message.isCost : Message K → Bool
  | .traffic _ => false
  | .cost _ => true

variable [Scalar K]

/--
A step change, and everything after it: messages of the two queues in turn, all of
one bucket, and all with the new values. Between two of them anything may happen
outside the services.
-/
structure Surge (K : Type) [Scalar K] where
  service : String
  bucket : String
  rate : K
  cost : K
  cpu : K
  message : ℕ → Message K
  meanwhile : ℕ → List Env
  alternate : ∀ n, (message (n + 1)).isCost = !(message n).isCost
  samples : ∀ n m, message n = .traffic m →
    m.service = service ∧ bucketKey m.timestamp = bucket ∧ m.requestsPerSecond = rate
  readings : ∀ n m, message n = .cost m →
    m.service = service ∧ bucketKey m.timestamp = bucket ∧ m.costPerHour = cost
      ∧ m.cpuCores.getD (some 0) = some cpu

namespace Surge

variable (s : Surge K)

theorem service_eq (n : ℕ) : (s.message n).service = s.service := by
  cases hm : s.message n with
  | traffic m => exact (s.samples n m hm).1
  | cost m => exact (s.readings n m hm).1

theorem numeric (n : ℕ) : (s.message n).Numeric := by
  cases hm : s.message n with
  | traffic m => trivial
  | cost m => exact ⟨s.cpu, (s.readings n m hm).2.2.2⟩

/-- The memory before the `n`-th message. -/
def memory (μ : Memory K) : ℕ → Memory K
  | 0 => μ
  | n + 1 => (memory μ n).handle (s.message n)

/-- How many cost readings come before the first traffic sample. -/
def lead : ℕ := if (s.message 0).isCost then 1 else 0

theorem isCost_eq (n : ℕ) : (s.message n).isCost = decide ((s.lead + n) % 2 = 1) := by
  induction n with
  | zero =>
      unfold lead
      cases (s.message 0).isCost <;> rfl
  | succ n ih =>
      rw [s.alternate, ih, Bool.eq_iff_iff]
      simp only [Bool.not_eq_true', decide_eq_false_iff_not, decide_eq_true_eq]
      omega

theorem lead_le : s.lead ≤ 1 := by
  unfold lead
  split <;> omega

/-- A message of odd rank, counted from the first traffic sample, is a cost reading. -/
theorem reading_of_odd {n : ℕ} (h : (s.lead + n) % 2 = 1) :
    ∃ m, s.message n = .cost m ∧ bucketKey m.timestamp = s.bucket ∧ m.costPerHour = s.cost := by
  have hkind := s.isCost_eq n
  rw [decide_eq_true h] at hkind
  cases hm : s.message n with
  | cost m => exact ⟨m, rfl, (s.readings n m hm).2.1, (s.readings n m hm).2.2.1⟩
  | traffic m =>
      rw [hm] at hkind
      cases hkind

theorem sample_of_even {n : ℕ} (h : (s.lead + n) % 2 = 0) :
    ∃ m, s.message n = .traffic m ∧ bucketKey m.timestamp = s.bucket
      ∧ m.requestsPerSecond = s.rate := by
  have hkind := s.isCost_eq n
  rw [decide_eq_false (by omega)] at hkind
  cases hm : s.message n with
  | traffic m => exact ⟨m, rfl, (s.samples n m hm).2⟩
  | cost m =>
      rw [hm] at hkind
      cases hkind

variable (μ : Memory K)

/-- What the `j`-th traffic sample scores. -/
def trafficZ (j : ℕ) : K :=
  ((fun t => BucketStats.update t s.rate)^[j] (BucketStats.fromDict (μ.traffic s.bucket))).zScore
    s.rate

/-- What a cost reading scores after `k` of them have been learned. -/
def costZ (k : ℕ) : K :=
  ((fun t => BucketStats.update t s.cost)^[k] (BucketStats.fromDict (μ.cost s.bucket))).zScore
    s.cost

/-! ## The traffic bucket -/

/-- The `j`-th traffic sample is learned, and its score is the signal. -/
theorem memory_sample (j : ℕ) :
    s.memory μ (s.lead + 2 * j + 1) =
      { s.memory μ (s.lead + 2 * j) with
        traffic := learn (s.memory μ (s.lead + 2 * j)).traffic s.bucket s.rate
        signal := some (scoreIn
          (BucketStats.fromDict ((s.memory μ (s.lead + 2 * j)).traffic s.bucket)) s.rate) } := by
  obtain ⟨m, hm, hbucket, hrate⟩ := s.sample_of_even (n := s.lead + 2 * j) (by omega)
  rw [memory, hm, Memory.handle, hbucket, hrate]

theorem cost_sample (j : ℕ) :
    (s.memory μ (s.lead + 2 * j + 1)).cost = (s.memory μ (s.lead + 2 * j)).cost := by
  rw [s.memory_sample μ j]

/-- The cost reading that follows it is judged by that signal. -/
theorem memory_reading (j : ℕ) :
    ∃ m, s.message (s.lead + 2 * j + 1) = .cost m ∧ bucketKey m.timestamp = s.bucket
      ∧ m.costPerHour = s.cost
      ∧ s.memory μ (s.lead + 2 * (j + 1)) = (s.memory μ (s.lead + 2 * j + 1)).handle (.cost m) := by
  obtain ⟨m, hm, hbucket, hcost⟩ := s.reading_of_odd (n := s.lead + 2 * j + 1) (by omega)
  refine ⟨m, hm, hbucket, hcost, ?_⟩
  show s.memory μ (s.lead + 2 * j + 1 + 1) = _
  rw [memory, hm]

theorem traffic_lead : (s.memory μ s.lead).traffic = μ.traffic := by
  by_cases h0 : (s.message 0).isCost = true
  · have hlead : s.lead = 1 := if_pos h0
    rw [hlead]
    show (μ.handle (s.message 0)).traffic = μ.traffic
    cases hm : s.message 0 with
    | cost m => rfl
    | traffic m =>
        rw [hm] at h0
        cases h0
  · have hlead : s.lead = 0 := if_neg h0
    rw [hlead]
    rfl

/-- **Every traffic sample is learned.** -/
theorem traffic_stats (j : ℕ) :
    BucketStats.fromDict ((s.memory μ (s.lead + 2 * j)).traffic s.bucket)
      = (fun t => BucketStats.update t s.rate)^[j]
          (BucketStats.fromDict (μ.traffic s.bucket)) := by
  induction j with
  | zero =>
      show BucketStats.fromDict ((s.memory μ s.lead).traffic s.bucket) = _
      rw [s.traffic_lead]
      rfl
  | succ j ih =>
      obtain ⟨m, hm, hbucket, _⟩ := s.sample_of_even (n := s.lead + 2 * j) (by omega)
      have hkey : s.bucket ≠ overallKey := hbucket ▸ bucketKey_ne_overall _
      obtain ⟨m', _, _, _, hstep⟩ := s.memory_reading μ j
      rw [hstep, Function.iterate_succ_apply', ← ih]
      show BucketStats.fromDict ((s.memory μ (s.lead + 2 * j + 1)).traffic s.bucket) = _
      rw [s.memory_sample μ j]
      dsimp only
      rw [learn, put_ne _ _ hkey, put_self, BucketStats.fromDict_stats]

theorem signal_eq (hn : 5 ≤ (BucketStats.fromDict (μ.traffic s.bucket)).n) (j : ℕ) :
    (s.memory μ (s.lead + 2 * j + 1)).signal = some (s.trafficZ μ j) := by
  rw [s.memory_sample μ j]
  dsimp only
  rw [s.traffic_stats μ j, scoreIn, if_pos]
  · rfl
  · rw [BucketStats.iterate_n]
    exact hn.trans (Nat.le_add_right ..)

/-! ## The cost bucket, while nothing qualifies -/

/-- Every reading before the `j`-th traffic sample was learned, and the counters are at rest. -/
structure Calm (j : ℕ) : Prop where
  stats : BucketStats.fromDict ((s.memory μ (s.lead + 2 * j)).cost s.bucket)
    = (fun t => BucketStats.update t s.cost)^[s.lead + j] (BucketStats.fromDict (μ.cost s.bucket))
  counters : 0 < s.lead + j → flags (s.memory μ (s.lead + 2 * j)).cost = ⟨0, 0⟩

section

variable {s μ}
variable (ht : 5 ≤ (BucketStats.fromDict (μ.traffic s.bucket)).n)
variable (hc : 5 ≤ (BucketStats.fromDict (μ.cost s.bucket)).n)
include ht hc

/-- **When a reading qualifies**: the cost stands out, and the traffic does not. -/
theorem qualifies_at_iff {j : ℕ} (h : s.Calm μ j) {m : CostEvent K}
    (hm : s.message (s.lead + 2 * j + 1) = .cost m) :
    (Reading.mk m (s.memory μ (s.lead + 2 * j + 1)).signal).qualifies
        (s.memory μ (s.lead + 2 * j + 1)).cost = true
      ↔ 3 < s.costZ μ (s.lead + j) ∧ s.trafficZ μ j < 1 := by
  obtain ⟨_, hbucket, hcost, _⟩ := s.readings _ m hm
  rw [qualifies_iff, s.signal_eq μ ht, s.cost_sample, Reading.bucket, Reading.value, hbucket,
    hcost, h.stats, BucketStats.iterate_n, costZThreshold_eq]
  constructor
  · intro hq
    obtain ⟨⟨_, hz⟩, z, hz', hlt⟩ := hq
    cases hz'
    exact ⟨hz, hlt⟩
  · intro hq
    exact ⟨⟨hc.trans (Nat.le_add_right ..), hq.1⟩, _, rfl, hq.2⟩

/-- **While the traffic explains the cost, the calm lasts.** -/
theorem Calm.succ {j : ℕ} (h : s.Calm μ j)
    (hz : 3 < s.costZ μ (s.lead + j) → 1 ≤ s.trafficZ μ j) :
    s.Calm μ (j + 1) ∧ (s.memory μ (s.lead + 2 * j + 1)).flagged
      (s.message (s.lead + 2 * j + 1)) = false := by
  obtain ⟨m, hm, hbucket, hcost, hstep⟩ := s.memory_reading μ j
  have hq := (qualifies_at_iff ht hc h hm).not.mpr fun hq => absurd hq.2 (not_lt.mpr (hz hq.1))
  obtain ⟨hflag, hstats, hflags⟩ := Memory.handle_of_not (Bool.eq_false_iff.mpr hq)
  rw [hbucket, hcost] at hstats
  refine ⟨⟨?_, fun _ => ?_⟩, ?_⟩
  · rw [hstep, hstats, ← Nat.add_assoc, Function.iterate_succ_apply', ← h.stats, s.cost_sample]
  · rw [hstep, hflags]
  · rw [hm, hflag]

omit hc in
/-- Once the traffic has faded it stays so. -/
theorem trafficZ_lt_succ [ExactSqrt K]
    (htm : 0 < (BucketStats.fromDict (μ.traffic s.bucket)).m2) {j : ℕ}
    (hz : s.trafficZ μ j < 1) : s.trafficZ μ (j + 1) < 1 := by
  -- pushing the same rate once more only lowers its squared score
  by_contra hle
  rw [not_lt, trafficZ, Function.iterate_succ_apply'] at hle
  rw [trafficZ] at hz
  have hm := BucketStats.iterate_m2_pos htm s.rate j
  have hn : 5 ≤ ((fun t => BucketStats.update t s.rate)^[j]
      (BucketStats.fromDict (μ.traffic s.bucket))).n := by
    rw [BucketStats.iterate_n]
    omega
  generalize (fun t => BucketStats.update t s.rate)^[j]
    (BucketStats.fromDict (μ.traffic s.bucket)) = t at hz hle hm hn
  have hm' : 0 < (t.update s.rate).m2 := BucketStats.iterate_m2_pos hm s.rate 1
  have hn' : 2 ≤ (t.update s.rate).n := by
    rw [BucketStats.update_n]
    omega
  obtain ⟨hmean, hsq⟩ := (BucketStats.le_zScore_iff hn' hm' one_pos s.rate).mp hle
  refine absurd hz (not_lt.mpr ((BucketStats.le_zScore_iff (by omega) hm one_pos s.rate).mpr ?_))
  refine ⟨?_, ?_⟩
  · exact (Moments.iterate_mean_lt (s := t.moments) (k := 1) (by rw [BucketStats.moments_n]; omega)).mp
      hmean
  · exact hsq.trans (Moments.score2_push_le (s := t.moments) (by rw [BucketStats.moments_n]; omega)
      hm s.rate)

/--
**A reading that qualifies is the first of three.**

The cost bucket stops learning, so the next readings score the same; the traffic goes
on fading; and the third is flagged.
-/
theorem flagged_of_qualifies [ExactSqrt K]
    (htm : 0 < (BucketStats.fromDict (μ.traffic s.bucket)).m2) {j : ℕ} (h : s.Calm μ j)
    (hpos : 0 < s.lead + j) (hcost : 3 < s.costZ μ (s.lead + j)) (htraffic : s.trafficZ μ j < 1) :
    (s.memory μ (s.lead + 2 * (j + 2) + 1)).flagged (s.message (s.lead + 2 * (j + 2) + 1))
      = true := by
  obtain ⟨m₀, hm₀, hb₀, hv₀, hstep₀⟩ := s.memory_reading μ j
  obtain ⟨m₁, hm₁, hb₁, hv₁, hstep₁⟩ := s.memory_reading μ (j + 1)
  obtain ⟨m₂, hm₂, hb₂, hv₂, _⟩ := s.memory_reading μ (j + 2)
  have hz₁ := trafficZ_lt_succ ht htm htraffic
  have hz₂ := trafficZ_lt_succ ht htm hz₁
  have hq := (qualifies_at_iff ht hc h hm₀).mpr ⟨hcost, htraffic⟩
  rw [hm₂, Memory.flagged, s.signal_eq μ ht]
  rw [s.signal_eq μ ht] at hq
  rw [Memory.handle, s.signal_eq μ ht] at hstep₀ hstep₁
  -- the profile the third reading finds is the first one's, judged twice
  have hp : (s.memory μ (s.lead + 2 * (j + 2) + 1)).cost
      = after (s.memory μ (s.lead + 2 * j + 1)).cost
          ([⟨m₁, some (s.trafficZ μ (j + 1))⟩, ⟨m₀, some (s.trafficZ μ j)⟩] ++ []) := by
    rw [s.cost_sample, hstep₁]
    show Reading.judge _ (s.memory μ (s.lead + 2 * (j + 1) + 1)).cost = _
    rw [s.cost_sample, hstep₀]
    rfl
  rw [hp]
  have hnone : streak (s.memory μ (s.lead + 2 * j + 1)).cost [] = 0 := rfl
  refine ((incident_flagged (l := [⟨m₂, some (s.trafficZ μ (j + 2))⟩,
    ⟨m₁, some (s.trafficZ μ (j + 1))⟩, ⟨m₀, some (s.trafficZ μ j)⟩]) ?_ hnone hq (by simp) ?_ ?_
    (List.suffix_refl _)).2).mpr (le_refl 2)
  · rw [s.cost_sample, h.counters hpos]
  · intro r hr
    simp only [List.mem_cons, List.not_mem_nil, or_false] at hr
    rcases hr with rfl | rfl | rfl
    · exact ⟨hb₂.trans hb₀.symm, hv₂.trans hv₀.symm⟩
    · exact ⟨hb₁.trans hb₀.symm, hv₁.trans hv₀.symm⟩
    · exact ⟨rfl, rfl⟩
  · intro r hr
    simp only [List.mem_cons, List.not_mem_nil, or_false] at hr
    rcases hr with rfl | rfl | rfl
    · exact ⟨_, rfl, hz₂⟩
    · exact ⟨_, rfl, hz₁⟩
    · exact ⟨_, rfl, htraffic⟩

end

/-! ## The whole surge -/

/-- The first cost reading stands out, and the traffic explains it. -/
def Explained : Prop :=
  costZThreshold < s.costZ μ 0
    ∧ ∃ z, (s.memory μ (1 - s.lead)).signal = some z ∧ trafficZComovement ≤ z

variable {s μ}

theorem explained_iff : s.Explained μ ↔
    3 < s.costZ μ 0 ∧ ∃ z, (s.memory μ (1 - s.lead)).signal = some z ∧ 3 ≤ z := by
  rw [Explained, costZThreshold_eq, trafficZComovement_eq]

/-- A reading the traffic explains does not qualify. -/
theorem not_qualifies_of_signal {m : CostEvent K} {p : Profile K} {z : K} (hz : 3 ≤ z) :
    (Reading.mk m (some z)).qualifies p = false := by
  rw [Bool.eq_false_iff]
  intro hq
  obtain ⟨_, z', hz', hlt⟩ := qualifies_iff.mp hq
  cases hz'
  have hlt' : z < 1 := hlt
  linarith

theorem Explained.calm (h : s.Explained μ) :
    s.Calm μ 0 ∧ (s.lead = 1 → μ.flagged (s.message 0) = false) := by
  obtain ⟨_, z, hz, hle⟩ := explained_iff.mp h
  -- a cost reading that comes before any sample is judged by the old signal
  by_cases hlead : s.lead = 0
  · have hstats : s.Calm μ 0 := by
      constructor
      · rw [hlead]
        rfl
      · intro hpos
        omega
    exact ⟨hstats, fun h1 => by omega⟩
  · have hone : s.lead = 1 := by
      have := s.lead_le
      omega
    obtain ⟨m, hm, hbucket, hcost⟩ := s.reading_of_odd (n := 0) (by omega)
    have hsignal : μ.signal = some z := by
      rw [hone] at hz
      exact hz
    have hq : (Reading.mk m μ.signal).qualifies μ.cost = false := by
      rw [hsignal]
      exact not_qualifies_of_signal hle
    obtain ⟨hflag, hstats, hflags⟩ := Memory.handle_of_not hq
    rw [hbucket, hcost] at hstats
    have hmem : s.memory μ (s.lead + 2 * 0) = μ.handle (.cost m) := by
      rw [hone]
      show μ.handle (s.message 0) = _
      rw [hm]
    refine ⟨⟨?_, fun _ => ?_⟩, fun _ => ?_⟩
    · rw [hmem, hstats, hone]
      rfl
    · rw [hmem, hflags]
    · rw [hm, hflag]

/-- **No reading is flagged exactly when the cost never outlasts the traffic.** -/
theorem unflagged_iff [ExactSqrt K] (ht : 5 ≤ (BucketStats.fromDict (μ.traffic s.bucket)).n)
    (htm : 0 < (BucketStats.fromDict (μ.traffic s.bucket)).m2)
    (hc : 5 ≤ (BucketStats.fromDict (μ.cost s.bucket)).n) (h : s.Explained μ) :
    (∀ n, (s.memory μ n).flagged (s.message n) = false)
      ↔ ∀ j, 3 < s.costZ μ (s.lead + j) → 1 ≤ s.trafficZ μ j := by
  obtain ⟨hcalm, hfirst⟩ := h.calm
  constructor
  · intro hquiet j
    -- by strong induction: up to the least failing round everything is calm
    have hboth : s.Calm μ j ∧ (3 < s.costZ μ (s.lead + j) → 1 ≤ s.trafficZ μ j) := by
      induction j with
      | zero =>
          refine ⟨hcalm, fun hz => ?_⟩
          by_contra hlt
          by_cases hlead : s.lead = 0
          · obtain ⟨_, z, hz', hle⟩ := explained_iff.mp h
            have hsig := s.signal_eq μ ht 0
            rw [hlead] at hsig hz'
            rw [show s.memory μ (1 - 0) = s.memory μ (0 + 2 * 0 + 1) from rfl, hsig] at hz'
            cases hz'
            linarith
          · have hflag := flagged_of_qualifies ht hc htm hcalm (by omega) hz (not_le.mp hlt)
            rw [hquiet] at hflag
            cases hflag
      | succ j ih =>
          have hnext := (ih.1.succ ht hc ih.2).1
          refine ⟨hnext, fun hz => ?_⟩
          by_contra hlt
          have hflag := flagged_of_qualifies ht hc htm hnext (by omega) hz (not_le.mp hlt)
          rw [hquiet] at hflag
          cases hflag
    exact hboth.2
  · intro hexp n
    -- conversely, every round is calm, and a calm reading flags nothing
    have hcalms : ∀ j, s.Calm μ j := by
      intro j
      induction j with
      | zero => exact hcalm
      | succ j ih => exact (ih.succ ht hc (hexp j)).1
    by_cases hodd : (s.lead + n) % 2 = 1
    · by_cases hzero : n = 0
      · subst hzero
        exact hfirst (by have := s.lead_le; omega)
      · obtain ⟨j, rfl⟩ : ∃ j, n = s.lead + 2 * j + 1 := by
          have := s.lead_le
          exact ⟨(n - s.lead) / 2, by omega⟩
        exact ((hcalms j).succ ht hc (hexp j)).2
    · obtain ⟨m, hm, _⟩ := s.sample_of_even (n := n) (by omega)
      rw [hm]
      rfl

end Surge

end HyperTrace.Behaviour

namespace HyperTrace.Proof

open HyperTrace Effect Behaviour Numeric

variable {K : Type} [Scalar K]

/-! ## The handlers, one message after the other -/

/-- The world before the `n`-th message of a surge: each is handled before the next one comes. -/
def served (s : Surge K) (w : World K) : ℕ → World K
  | 0 => w
  | n + 1 => ((s.message n).handler.run exec (sound id)
      ((s.meanwhile n).foldl World.env (served s w n))).2

/-! ## The memory follows the world -/

omit [Scalar K] in
theorem memoryOf_env (w : World K) (es : List Env) (service : String) :
    memoryOf (es.foldl World.env w) service = memoryOf w service
      ∧ (es.foldl World.env w).anomalies = w.anomalies
      ∧ (es.foldl World.env w).nextUuid = w.nextUuid := by
  induction es generalizing w with
  | nil => exact ⟨rfl, rfl, rfl⟩
  | cons e es ih =>
      rw [List.foldl_cons]
      obtain ⟨hmem, hanom, hnext⟩ := ih (w.env e)
      refine ⟨hmem.trans ?_, hanom.trans ?_, hnext.trans ?_⟩
      · cases e <;> rfl
      · cases e <;> rfl
      · cases e <;> rfl

/-- **A handler moves the memory of its service as `handle` says, and stores what it flags.** -/
theorem served_succ (s : Surge K) (w : World K) (n : ℕ)
    (hfresh : ∀ r ∈ (served s w n).anomalies, r.id ≠ (served s w n).nextUuid) :
    if (memoryOf (served s w n) s.service).flagged (s.message n) then
      (served s w (n + 1)).anomalies ≠ (served s w n).anomalies
    else
      memoryOf (served s w (n + 1)) s.service
          = (memoryOf (served s w n) s.service).handle (s.message n)
        ∧ (served s w (n + 1)).anomalies = (served s w n).anomalies
        ∧ (served s w (n + 1)).nextUuid = (served s w n).nextUuid := by
  -- what the environment does in between touches nothing the handlers remember
  obtain ⟨hmem, hanom, hnext⟩ := memoryOf_env (served s w n) (s.meanwhile n) s.service
  rw [← hmem, ← hanom, ← hnext]
  rw [← hanom, ← hnext] at hfresh
  rw [served]
  generalize (s.meanwhile n).foldl World.env (served s w n) = v at hfresh
  obtain ⟨v', hrun, hv⟩ := absorbed v (s.numeric n) hfresh
  rw [hrun]
  have hmemory := hv.memory
  have hstored := hv.anomalies
  rw [s.service_eq] at hmemory hstored
  split
  · rename_i hflag
    -- flagged: the anomaly is one row more
    rw [if_pos hflag] at hstored
    obtain ⟨row, _, hrows, _⟩ := hstored
    intro hsame
    have hlen := congrArg List.length (hsame.symm.trans hrows)
    simp at hlen
  · rename_i hflag
    rw [if_neg hflag] at hstored
    exact ⟨hmemory, hstored⟩

/-- Up to a flag the world is the memory's world, and no anomaly has been stored. -/
theorem served_quiet (s : Surge K) {w : World K} (hfresh : ∀ r ∈ w.anomalies, r.id ≠ w.nextUuid)
    {n : ℕ} (hquiet : ∀ i < n,
      (s.memory (memoryOf w s.service) i).flagged (s.message i) = false) :
    memoryOf (served s w n) s.service = s.memory (memoryOf w s.service) n
      ∧ (served s w n).anomalies = w.anomalies ∧ (served s w n).nextUuid = w.nextUuid := by
  induction n with
  | zero => exact ⟨rfl, rfl, rfl⟩
  | succ n ih =>
      obtain ⟨hmem, hanom, hnext⟩ := ih fun i hi => hquiet i (Nat.lt_succ_of_lt hi)
      have hstep := served_succ s w n (by rw [hanom, hnext]; exact hfresh)
      rw [hmem, if_neg (by rw [hquiet n (Nat.lt_succ_self n)]; exact Bool.false_ne_true)] at hstep
      exact ⟨hstep.1, hstep.2.1.trans hanom, hstep.2.2.trans hnext⟩

/-- **No anomaly is stored exactly when no message is flagged.** -/
theorem served_unflagged_iff (s : Surge K) {w : World K}
    (hfresh : ∀ r ∈ w.anomalies, r.id ≠ w.nextUuid) :
    (∀ n, (served s w n).anomalies = w.anomalies)
      ↔ ∀ n, (s.memory (memoryOf w s.service) n).flagged (s.message n) = false := by
  constructor
  · intro hsame n
    induction n using Nat.strong_induction_on with
    | _ n ih =>
        obtain ⟨hmem, hanom, hnext⟩ := served_quiet s hfresh ih
        have hstep := served_succ s w n (by rw [hanom, hnext]; exact hfresh)
        rw [hmem, hsame n, hsame (n + 1)] at hstep
        by_contra hflag
        rw [if_pos (by simpa using hflag)] at hstep
        exact hstep rfl
  · intro hquiet n
    exact (served_quiet s hfresh fun i _ => hquiet i).2.1

/-! ## The claim, and what it takes -/

/-- The bucket a surge goes into. -/
def bucketOf (w : World K) (s : Surge K) (metric : String) : BucketStats K :=
  BucketStats.fromDict (profileOf w s.service metric s.bucket)

/-- `evaluate_condition` finds that the traffic explains the reading. -/
def explainedIn (w : World K) (m : CostEvent K) (cpu : K) : Bool :=
  let stats := BucketStats.fromDict (profileOf w m.service metricCost (bucketKey m.timestamp))
  let cpuStats := BucketStats.fromDict (profileOf w m.service metricCpu (bucketKey m.timestamp))
  (evaluateCondition (scoreIn stats m.costPerHour) (scoreIn cpuStats cpu)
    (w.trafficZ m.service) (decide (stats.n ≥ minSamplesForDetection))).2

/-- The first cost reading of the surge is explained by the traffic. -/
def ExplainedFirst (s : Surge K) (w : World K) : Prop :=
  ∃ m, s.message (1 - s.lead) = .cost m
    ∧ explainedIn (served s w (1 - s.lead)) m s.cpu = true

/--
Once the traffic has fallen below one standard deviation the cost is within three:
what the two squared scores become after `j` rounds, by what they were at the step.
-/
def Recedes (s : Surge K) (traffic cost : BucketStats K) : Prop :=
  ∀ j, s.rate ≤ traffic.mean
      ∨ Moments.decay traffic.n (Moments.score2 traffic.moments s.rate) j < 1 →
    Moments.decay cost.n (Moments.score2 cost.moments s.cost) (s.lead + j) ≤ 9

theorem explainedIn_iff {w : World K} {m : CostEvent K} {cpu : K}
    (hn : 5 ≤ (BucketStats.fromDict
      (profileOf w m.service metricCost (bucketKey m.timestamp))).n) :
    explainedIn w m cpu = true
      ↔ 3 < (BucketStats.fromDict
          (profileOf w m.service metricCost (bucketKey m.timestamp))).zScore m.costPerHour
        ∧ ∃ z, w.trafficZ m.service = some z ∧ 3 ≤ z := by
  unfold explainedIn
  dsimp only
  have hmature : (BucketStats.fromDict
      (profileOf w m.service metricCost (bucketKey m.timestamp))).n ≥ minSamplesForDetection := hn
  rw [scoreIn, if_pos hmature, decide_eq_true hmature]
  have hresource : (resourceZThreshold : K) = 3 := costZThreshold_eq
  cases w.trafficZ m.service with
  | none => simp [evaluateCondition]
  | some z =>
      simp only [evaluateCondition, Bool.and_eq_true, decide_eq_true_eq, Option.some.injEq,
        exists_eq_left', costZThreshold_eq, hresource, trafficZComovement_eq, gt_iff_lt, ge_iff_le]
      constructor
      · intro h
        exact ⟨h.1.2, h.2⟩
      · intro h
        exact ⟨⟨lt_max_of_lt_left h.1, h.1⟩, h.2⟩

section

variable {s : Surge K} {w : World K}
variable (hfresh : ∀ r ∈ w.anomalies, r.id ≠ w.nextUuid)
variable (hc : 5 ≤ (bucketOf w s metricCost).n)
include hfresh hc

theorem explained_of_first (h : ExplainedFirst s w) :
    s.Explained (memoryOf w s.service) := by
  obtain ⟨m, hm, hexp⟩ := h
  obtain ⟨hservice, hbucket, hcost, _⟩ := s.readings _ m hm
  -- before the first reading only a sample is handled, and samples flag nothing
  have hquiet : ∀ i < 1 - s.lead,
      (s.memory (memoryOf w s.service) i).flagged (s.message i) = false := by
    intro i hi
    obtain ⟨m', hm', _⟩ := s.sample_of_even (n := i) (by omega)
    rw [hm']
    rfl
  have hmem := (served_quiet s hfresh hquiet).1
  have hsame : (s.memory (memoryOf w s.service) (1 - s.lead)).cost
      = profileOf w s.service metricCost := by
    by_cases hlead : s.lead = 0
    · have hsample := s.cost_sample (memoryOf w s.service) 0
      rw [hlead] at hsample ⊢
      exact hsample
    · have hone : s.lead = 1 := by
        have := s.lead_le
        omega
      rw [hone]
      rfl
  have hprofile : profileOf (served s w (1 - s.lead)) s.service metricCost
      = profileOf w s.service metricCost := (congrArg Memory.cost hmem).trans hsame
  rw [explainedIn_iff (by rw [hservice, hbucket, hprofile]; exact hc), hservice, hbucket, hprofile,
    hcost] at hexp
  refine Surge.explained_iff.mpr ⟨hexp.1, ?_⟩
  rw [← hmem]
  exact hexp.2

variable [ExactSqrt K] (ht : 5 ≤ (bucketOf w s metricTraffic).n)
variable (htm : 0 < (bucketOf w s metricTraffic).m2) (hcm : 0 < (bucketOf w s metricCost).m2)

omit hfresh in
include ht htm hcm in
/-- The closed form of the two sequences of scores. -/
theorem recedes_iff (hz : 3 < s.costZ (memoryOf w s.service) 0) :
    (∀ j, 3 < s.costZ (memoryOf w s.service) (s.lead + j)
        → 1 ≤ s.trafficZ (memoryOf w s.service) j)
      ↔ Recedes s (bucketOf w s metricTraffic) (bucketOf w s metricCost) := by
  -- both scores compared with their bounds, squared; the means only approach the value
  have htraffic : ∀ j, 1 ≤ s.trafficZ (memoryOf w s.service) j
      ↔ ¬ (s.rate ≤ (bucketOf w s metricTraffic).mean
        ∨ Moments.decay (bucketOf w s metricTraffic).n
            (Moments.score2 (bucketOf w s metricTraffic).moments s.rate) j < 1) := by
    intro j
    have hiff := BucketStats.le_zScore_iff (c := 1) (by rw [BucketStats.iterate_n]; omega)
      (BucketStats.iterate_m2_pos htm s.rate j) one_pos s.rate
    have hmean := Moments.iterate_mean_lt (s := (bucketOf w s metricTraffic).moments) (v := s.rate)
      (k := j) (by rw [BucketStats.moments_n]; omega)
    have hdecay := Moments.decay_eq (s := (bucketOf w s metricTraffic).moments)
      (by rw [BucketStats.moments_n]; omega) htm s.rate j
    rw [← BucketStats.moments_iterate] at hmean hdecay
    rw [hdecay, one_pow, BucketStats.moments_n] at hiff
    rw [not_or, not_le, not_lt]
    exact hiff.trans (and_congr_left' hmean)
  have hcost : ∀ k, 3 < s.costZ (memoryOf w s.service) k
      ↔ ¬ Moments.decay (bucketOf w s metricCost).n
          (Moments.score2 (bucketOf w s metricCost).moments s.cost) k ≤ 9 := by
    intro k
    have habove := ((BucketStats.lt_zScore_iff (by omega) hcm zero_le_three s.cost).mp hz).1
    have hiff := BucketStats.lt_zScore_iff (c := 3) (by rw [BucketStats.iterate_n]; omega)
      (BucketStats.iterate_m2_pos hcm s.cost k) zero_le_three s.cost
    have hmean := Moments.iterate_mean_lt (s := (bucketOf w s metricCost).moments) (v := s.cost)
      (k := k) (by rw [BucketStats.moments_n]; omega)
    have hdecay := Moments.decay_eq (s := (bucketOf w s metricCost).moments)
      (by rw [BucketStats.moments_n]; omega) hcm s.cost k
    rw [← BucketStats.moments_iterate] at hmean hdecay
    rw [hdecay, BucketStats.moments_n, show (3 : K) ^ 2 = 9 by norm_num] at hiff
    rw [not_le]
    exact hiff.trans (and_iff_right (hmean.mpr habove))
  constructor
  · intro h j hfaded
    by_contra hgt
    exact (htraffic j).mp (h j ((hcost _).mpr hgt)) hfaded
  · intro h j hgt
    rw [htraffic]
    intro hfaded
    exact (hcost _).mp hgt (h j hfaded)

include ht htm hcm in
theorem unflagged_iff_recedes (hfirst : ExplainedFirst s w) :
    (∀ n, (s.memory (memoryOf w s.service) n).flagged (s.message n) = false)
      ↔ Recedes s (bucketOf w s metricTraffic) (bucketOf w s metricCost) := by
  have hexp := explained_of_first hfresh hc hfirst
  have hscores : (∀ n, (s.memory (memoryOf w s.service) n).flagged (s.message n) = false)
      ↔ ∀ j, 3 < s.costZ (memoryOf w s.service) (s.lead + j)
        → 1 ≤ s.trafficZ (memoryOf w s.service) j := Surge.unflagged_iff ht htm hc hexp
  exact hscores.trans (recedes_iff hc ht htm hcm (Surge.explained_iff.mp hexp).1)

end

/--
**A flash sale is never acted on exactly when its cost recedes in time.**

Any world, any two buckets of five samples or more with some spread, and any surge
whose first cost reading the traffic explains: no anomaly is ever stored if and only
if the cost scores at most 3 from the moment the traffic scores less than 1.
-/
theorem surge_unflagged_iff [ExactSqrt K] (s : Surge K) (w : World K)
    (hfresh : ∀ r ∈ w.anomalies, r.id ≠ w.nextUuid)
    (ht : 5 ≤ (bucketOf w s metricTraffic).n) (htm : 0 < (bucketOf w s metricTraffic).m2)
    (hc : 5 ≤ (bucketOf w s metricCost).n) (hcm : 0 < (bucketOf w s metricCost).m2)
    (hfirst : ExplainedFirst s w) :
    (∀ n, (served s w n).anomalies = w.anomalies)
      ↔ Recedes s (bucketOf w s metricTraffic) (bucketOf w s metricCost) :=
  (served_unflagged_iff s hfresh).trans (unflagged_iff_recedes hfresh hc ht htm hcm hfirst)

namespace Scenario

/-- Traffic samples and cost readings in turn, at three and at a hundred. -/
noncomputable def sale : Surge ℝ where
  service := victim
  bucket := bucketKey 0
  rate := 3.0
  cost := realCost.costPerHour
  cpu := 0
  message n := if n % 2 = 0 then .traffic ⟨0, victim, 3.0⟩ else .cost realCost
  meanwhile _ := []
  alternate n := by
    rcases Nat.mod_two_eq_zero_or_one n with h | h
    · simp [h, Nat.add_mod, Message.isCost]
    · simp [h, Nat.add_mod, Message.isCost]
  samples n m h := by
    split at h
    · cases h
      exact ⟨rfl, rfl, rfl⟩
    · cases h
  readings n m h := by
    split at h
    · cases h
    · cases h
      exact ⟨rfl, rfl, rfl, rfl⟩

/-- A young traffic bucket, and a cost bucket two hundred times its age, both of mean 0 and
of deviation 1. -/
noncomputable def settled : World ℝ :=
  ((World.empty ℝ).saveProfile victim metricTraffic
      ⟨0, 0, put (fun _ => none) (bucketKey 0) (.stats ⟨5, 0, 4⟩), 0⟩).saveProfile victim metricCost
    ⟨0, 0, put (fun _ => none) (bucketKey 0) (.stats ⟨1000, 0, 999⟩), 0⟩

theorem settled_traffic : bucketOf settled sale metricTraffic = ⟨5, 0, 4⟩ := by
  simp [bucketOf, profileOf, settled, World.saveProfile, sale, World.empty,
    show metricTraffic ≠ metricCost by decide]

theorem settled_cost : bucketOf settled sale metricCost = ⟨1000, 0, 999⟩ := by
  simp [bucketOf, profileOf, settled, World.saveProfile, sale]

theorem sale_explained : ExplainedFirst sale settled := by
  have hmem : memoryOf (served sale settled 1) victim
      = (memoryOf settled victim).handle (.traffic ⟨0, victim, 3.0⟩) :=
    (served_succ sale settled 0 (by intro r hr; cases hr)).1
  have hcost : profileOf (served sale settled 1) victim metricCost
      = profileOf settled victim metricCost := congrArg Memory.cost hmem
  have hstats : BucketStats.fromDict (profileOf (served sale settled 1) realCost.service metricCost
      (bucketKey realCost.timestamp)) = ⟨1000, 0, 999⟩ := by
    show BucketStats.fromDict (profileOf (served sale settled 1) victim metricCost _) = _
    rw [hcost]
    exact settled_cost
  refine ⟨realCost, rfl, ?_⟩
  show explainedIn (served sale settled 1) realCost 0 = true
  rw [explainedIn_iff (by rw [hstats]; norm_num), hstats]
  refine ⟨?_, (BucketStats.mk 5 0 4).zScore 3.0, ?_, ?_⟩
  -- the cost stands out
  · rw [BucketStats.lt_zScore_iff (by norm_num) (by norm_num) (by norm_num)]
    norm_num [realCost, BucketStats.moments, Moments.score2]
  · have hsignal := congrArg Memory.signal hmem
    have htraffic : BucketStats.fromDict (profileOf settled victim metricTraffic (bucketKey 0))
        = ⟨5, 0, 4⟩ := settled_traffic
    have hscore : (memoryOf (served sale settled 1) victim).signal
        = some (scoreIn (BucketStats.fromDict (profileOf settled victim metricTraffic (bucketKey 0)))
          3.0) := hsignal
    rw [htraffic] at hscore
    exact hscore
  · rw [BucketStats.le_zScore_iff (by norm_num) (by norm_num) (by norm_num)]
    norm_num [BucketStats.moments, Moments.score2]

theorem sale_outlasts :
    ¬ Recedes sale (bucketOf settled sale metricTraffic) (bucketOf settled sale metricCost) := by
  rw [settled_traffic, settled_cost]
  intro h
  have h4 := h 4 (Or.inr (by norm_num [Moments.decay, Moments.score2, BucketStats.moments, sale]))
  norm_num [Moments.decay, Moments.score2, BucketStats.moments, sale, realCost, Surge.lead,
    Message.isCost] at h4

end Scenario

open Scenario in
/-- The surge below: its cost outlasts its traffic, and so it is flagged. -/
theorem surge_unflagged_iff_sale :
    ¬ Recedes sale (bucketOf settled sale metricTraffic) (bucketOf settled sale metricCost)
      ∧ ¬ ∀ n, (served sale settled n).anomalies = settled.anomalies := by
  refine ⟨sale_outlasts, ?_⟩
  rw [surge_unflagged_iff sale settled (by intro r hr; cases hr) (by rw [settled_traffic])
    (by rw [settled_traffic]; norm_num) (by rw [settled_cost]; norm_num)
    (by rw [settled_cost]; norm_num) sale_explained]
  exact sale_outlasts

open Scenario in
/--
**A flash sale is flagged.** Traffic at three deviations of five samples, cost at a
hundred of a thousand: the traffic is learned within four rounds, the cost is not.
-/
theorem surge_flagged :
    ExplainedFirst sale settled ∧ 5 ≤ (bucketOf settled sale metricTraffic).n
      ∧ 0 < (bucketOf settled sale metricTraffic).m2 ∧ 5 ≤ (bucketOf settled sale metricCost).n
      ∧ 0 < (bucketOf settled sale metricCost).m2
      ∧ ∃ n, (served sale settled n).anomalies ≠ settled.anomalies := by
  have hfresh : ∀ r ∈ settled.anomalies, r.id ≠ settled.nextUuid := by
    intro r hr
    cases hr
  have ht : 5 ≤ (bucketOf settled sale metricTraffic).n := by rw [settled_traffic]
  have htm : 0 < (bucketOf settled sale metricTraffic).m2 := by rw [settled_traffic]; norm_num
  have hc : 5 ≤ (bucketOf settled sale metricCost).n := by rw [settled_cost]; norm_num
  have hcm : 0 < (bucketOf settled sale metricCost).m2 := by rw [settled_cost]; norm_num
  refine ⟨sale_explained, ht, htm, hc, hcm, ?_⟩
  by_contra hnone
  push Not at hnone
  have hquiet := (served_unflagged_iff sale hfresh).mp hnone
  exact sale_outlasts ((unflagged_iff_recedes hfresh hc ht htm hcm sale_explained).mp hquiet)

end HyperTrace.Proof
