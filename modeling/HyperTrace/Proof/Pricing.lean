import HyperTrace.Cost.Intelligence
import HyperTrace.Proof.Interference
import HyperTrace.Proof.Shift

/-!
# The unit of cost

No amount of money stands anywhere between the prices and the verdict: thresholds
are in standard deviations, and a bucket has no spread in one unit exactly when it
has none in another. So the same messages, priced `k` times as high, are learned,
scored and flagged the same, and what is kept and published about them is the same
but for the amounts. Two runs of the detector that differ in the prices only are
compared here, from empty state, at every interleaving and whatever fails.

A root has to be one for this: of two rationals without a rational root, nothing
says that the approximations are `k` times one another.
-/

namespace HyperTrace

/-- The same prices, in a unit of which it takes `k` times as many. -/
def Cost.PricingModel.times {K : Type} [Scalar K] (pricing : Cost.PricingModel K) (k : K) :
    Cost.PricingModel K :=
  ⟨k * pricing.cpuCoreHour, k * pricing.memoryGbHour⟩

theorem Cost.costPerHour_times {K : Type} [Scalar K] (pricing : Cost.PricingModel K) (k cores : K)
    (bytes : Nat) :
    (pricing.times k).costPerHour cores bytes = k * pricing.costPerHour cores bytes := by
  simp only [Cost.PricingModel.costPerHour, Cost.PricingModel.times]
  ring

namespace Proof

open HyperTrace Effect Behaviour Numeric

variable {K : Type} [Scalar K]

/-! ## Statistics in another unit -/

/-- What the bucket would hold if every value had been `k` times as large. -/
structure Rescaled (k : K) (s s' : BucketStats K) : Prop where
  n : s'.n = s.n
  mean : s'.mean = k * s.mean
  m2 : s'.m2 = k ^ 2 * s.m2
  nonneg : 0 ≤ s.m2

namespace Rescaled

variable {k : K} {s s' : BucketStats K}

theorem empty (k : K) : Rescaled k BucketStats.empty BucketStats.empty where
  n := rfl
  mean := (mul_zero k).symm
  m2 := (mul_zero _).symm
  nonneg := le_refl _

theorem update (h : Rescaled k s s') (v : K) : Rescaled k (s.update v) (s'.update (k * v)) where
  n := congrArg (· + 1) h.n
  mean := by
    simp only [BucketStats.update, h.n, h.mean]
    ring
  m2 := by
    simp only [BucketStats.update, h.n, h.mean, h.m2]
    ring
  nonneg := Moments.m2_push_nonneg (s := s.moments) h.nonneg v

variable [ExactSqrt K]

theorem sqrt_sq_mul (hk : 0 ≤ k) {x : K} (hx : 0 ≤ x) :
    Scalar.sqrt (k ^ 2 * x) = k * Scalar.sqrt x := by
  have hkx : 0 ≤ k ^ 2 * x := mul_nonneg (sq_nonneg k) hx
  refine (mul_self_inj (ExactSqrt.sqrt_nonneg _ hkx)
    (mul_nonneg hk (ExactSqrt.sqrt_nonneg _ hx))).mp ?_
  calc Scalar.sqrt (k ^ 2 * x) * Scalar.sqrt (k ^ 2 * x)
      = k ^ 2 * x := ExactSqrt.sqrt_mul_self _ hkx
    _ = k ^ 2 * (Scalar.sqrt x * Scalar.sqrt x) := by rw [ExactSqrt.sqrt_mul_self _ hx]
    _ = k * Scalar.sqrt x * (k * Scalar.sqrt x) := by ring

theorem stddev (h : Rescaled k s s') (hk : 0 ≤ k) : s'.stddev = k * s.stddev := by
  unfold BucketStats.stddev
  rw [h.n]
  split
  · exact (mul_zero k).symm
  · have hvar : 0 ≤ s.m2 / ((s.n - 1 : ℕ) : K) := div_nonneg h.nonneg (Nat.cast_nonneg _)
    rw [h.m2, mul_div_assoc, sqrt_sq_mul hk hvar]

/-- **A z-score has no unit.** -/
theorem zScore (h : Rescaled k s s') (hk : 0 < k) (v : K) : s'.zScore (k * v) = s.zScore v := by
  unfold BucketStats.zScore
  rw [h.stddev hk.le, h.mean, ← mul_sub, mul_div_mul_left _ _ hk.ne']
  simp only [mul_eq_zero, hk.ne', false_or]

end Rescaled

/-! ## Profiles in another unit -/

/-- An entry of a profile: statistics are rescaled, the counters are as they are. -/
inductive EntryRescaled (k : K) : Option (ProfileEntry K) → Option (ProfileEntry K) → Prop where
  | absent : EntryRescaled k none none
  | stats {s s' : BucketStats K} (h : Rescaled k s s') :
      EntryRescaled k (some (.stats s)) (some (.stats s'))
  | flags (f : FlagState) : EntryRescaled k (some (.flags f)) (some (.flags f))

def ProfileRescaled (k : K) (p p' : Profile K) : Prop := ∀ key, EntryRescaled k (p key) (p' key)

namespace ProfileRescaled

variable {k : K} {p p' : Profile K}

theorem stats (h : ProfileRescaled k p p') (key : String) :
    Rescaled k (BucketStats.fromDict (p key)) (BucketStats.fromDict (p' key)) := by
  have hentry := h key
  generalize p key = a at hentry ⊢
  generalize p' key = b at hentry ⊢
  cases hentry with
  | absent => exact .empty k
  | stats hs => exact hs
  | flags f => exact .empty k

theorem flags (h : ProfileRescaled k p p') (key : String) :
    FlagState.fromDict (p' key) = FlagState.fromDict (p key) := by
  have hentry := h key
  generalize p key = a at hentry ⊢
  generalize p' key = b at hentry ⊢
  cases hentry <;> rfl

theorem put (h : ProfileRescaled k p p') (key : String) {a b : ProfileEntry K}
    (hab : EntryRescaled k (some a) (some b)) :
    ProfileRescaled k (HyperTrace.put p key a) (HyperTrace.put p' key b) := by
  intro key'
  unfold HyperTrace.put
  split
  · exact hab
  · exact h key'

theorem learn (h : ProfileRescaled k p p') (bucket : String) (v : K) :
    ProfileRescaled k (Behaviour.learn p bucket v) (Behaviour.learn p' bucket (k * v)) :=
  (h.put bucket (.stats ((h.stats bucket).update v))).put overallKey
    (.stats ((h.stats overallKey).update v))

end ProfileRescaled

/-! ## Readings in another unit -/

/-- The reading, `k` times as dear. -/
def dearer (k : K) (m : CostEvent K) : CostEvent K := { m with costPerHour := k * m.costPerHour }

section

variable [ExactSqrt K] {k : K} {p p' : Profile K} (hk : 0 < k) (h : ProfileRescaled k p p')

include hk h

theorem qualifies_dearer (m : CostEvent K) (tz : Option K) :
    qualifies (dearer k m) p' tz = qualifies m p tz := by
  have hstats := h.stats (bucketKey m.timestamp)
  have hz := hstats.zScore hk m.costPerHour
  unfold qualifies dearer
  dsimp only
  rw [hz, hstats.n]

theorem dwelt_dearer (m : CostEvent K) (tz : Option K) :
    dwelt (dearer k m) p' tz = dwelt m p tz := by
  unfold dwelt
  rw [qualifies_dearer hk h, h.flags]

theorem admitted_dearer (m : CostEvent K) (tz : Option K) :
    (Reading.mk (dearer k m) tz).admitted p' = (Reading.mk m tz).admitted p := by
  unfold Reading.admitted
  dsimp only
  rw [qualifies_dearer hk h, h.flags]

theorem shouldFlag_dearer (m : CostEvent K) (tz : Option K) :
    (Reading.mk (dearer k m) tz).shouldFlag p' = (Reading.mk m tz).shouldFlag p := by
  unfold Reading.shouldFlag Reading.qualifies
  dsimp only
  rw [qualifies_dearer hk h, dwelt_dearer hk h]

theorem judge_dearer (m : CostEvent K) (tz : Option K) :
    ProfileRescaled k ((Reading.mk m tz).judge p) ((Reading.mk (dearer k m) tz).judge p') := by
  unfold Reading.judge
  rw [admitted_dearer hk h]
  dsimp only
  rw [dwelt_dearer hk h]
  refine ProfileRescaled.put ?_ flagStateKey (.flags _)
  split
  · exact h.learn _ _
  · exact h

theorem scoreIn_dearer (bucket : String) (v : K) :
    scoreIn (BucketStats.fromDict (p' bucket)) (k * v)
      = scoreIn (BucketStats.fromDict (p bucket)) v := by
  unfold scoreIn
  rw [(h.stats bucket).n, (h.stats bucket).zScore hk]

/-- **What is flagged is the same, but for the two amounts.** -/
theorem flagOf_dearer (m : CostEvent K) (tz : Option K) (cpuZ : K) :
    flagOf (dearer k m) p' tz cpuZ =
      { flagOf m p tz cpuZ with
        value := k * (flagOf m p tz cpuZ).value
        costDelta := k * (flagOf m p tz cpuZ).costDelta } := by
  have hstats := h.stats (bucketKey m.timestamp)
  have hscore : (Reading.mk (dearer k m) tz).costZ p' = (Reading.mk m tz).costZ p :=
    scoreIn_dearer hk h (bucketKey m.timestamp) m.costPerHour
  have hlearned : (if ((Reading.mk (dearer k m) tz).admitted p').1
        then (BucketStats.fromDict (p' (bucketKey m.timestamp))).update (k * m.costPerHour)
        else BucketStats.fromDict (p' (bucketKey m.timestamp))).n
      = (if ((Reading.mk m tz).admitted p).1
        then (BucketStats.fromDict (p (bucketKey m.timestamp))).update m.costPerHour
        else BucketStats.fromDict (p (bucketKey m.timestamp))).n := by
    rw [admitted_dearer hk h]
    split
    · exact (hstats.update m.costPerHour).n
    · exact hstats.n
  have hdelta : (if decide ((BucketStats.fromDict (p' (bucketKey m.timestamp))).n
          ≥ minSamplesForDetection) = true
        then k * m.costPerHour - (BucketStats.fromDict (p' (bucketKey m.timestamp))).mean else 0)
      = k * (if decide ((BucketStats.fromDict (p (bucketKey m.timestamp))).n
          ≥ minSamplesForDetection) = true
        then m.costPerHour - (BucketStats.fromDict (p (bucketKey m.timestamp))).mean else 0) := by
    rw [hstats.n, hstats.mean]
    split
    · exact (mul_sub ..).symm
    · exact (mul_zero k).symm
  unfold flagOf
  dsimp only
  rw [Behaviour.Flag.mk.injEq]
  refine ⟨rfl, ?_, ?_, ?_, ?_, hdelta, rfl, rfl, rfl⟩
  · rw [hscore]
  · rw [hscore]
    exact congrArg (confidence _ corroborationNone) hlearned
  · rw [hscore]
    simp only [dearer, hstats.n]
  · exact congrArg (fun n => decide (n ≥ maturitySamples)) hlearned

end

/-! ## The two runs -/

/-- The row of a cost profile. -/
structure RowRescaled (k : K) (row row' : BaselineRow K) : Prop where
  rollingMean : row'.rollingMean = k * row.rollingMean
  rollingStddev : row'.rollingStddev = k * row.rollingStddev
  profile : ProfileRescaled k row.profile row'.profile
  updatedAt : row'.updatedAt = row.updatedAt

/-- The rows of the cost are rescaled, all others are the same. -/
def BaselineRescaled (k : K) (metric : String) (row row' : BaselineRow K) : Prop :=
  if metric = metricCost then RowRescaled k row row' else row = row'

/-- The evidence, but for the amounts. -/
def evidenceDearer (k : K) (e : Evidence K) : Evidence K :=
  { e with value := e.value.map (k * ·), costDeltaUsdHr := k * e.costDeltaUsdHr }

def rowDearer (k : K) (r : AnomalyRow K) : AnomalyRow K :=
  { r with evidence := evidenceDearer k r.evidence, costDeltaUsdHr := k * r.costDeltaUsdHr }

def messageDearer (k : K) (m : AnomalyMessage K) : AnomalyMessage K :=
  { m with evidence := evidenceDearer k m.evidence }

/-- One metric event, priced twice. -/
def PricedTwice (pricing : Cost.PricingModel K) (k : K) (m m' : CostEvent K) : Prop :=
  ∃ now message, Cost.handle pricing now message = some m
    ∧ Cost.handle (pricing.times k) now message = some m'

/-- The same metric events at other prices. -/
def otherPrices (pricing : Cost.PricingModel K) (k : K) : Variation K where
  reading := PricedTwice pricing k
  profile metric p p' := if metric = metricCost then ProfileRescaled k p p' else p = p'
  baseline := BaselineRescaled k
  anomaly row row' := row' = rowDearer k row
  message m m' := m' = messageDearer k m
  absent metric := by
    split
    · exact fun _ => .absent
    · rfl
  loaded {metric row row'} h := by
    unfold BaselineRescaled at h
    split at h
    · rw [if_pos ‹_›]
      exact h.profile
    · rw [if_neg ‹_›, h]
  traffic h := h
  same _ := rfl
  id h := by rw [h]; rfl

theorem pricedTwice_iff {pricing : Cost.PricingModel K} {k : K} {m m' : CostEvent K}
    (h : PricedTwice pricing k m m') : m' = dearer k m ∧ ∃ v, m.cpuCores = some (some v) := by
  obtain ⟨now, message, hm, hm'⟩ := h
  unfold Cost.handle at hm hm'
  cases hs : Cost.serviceId message.resource with
  | none => simp [hs] at hm
  | some service =>
      simp only [hs, Option.map_some, Option.some.injEq] at hm hm'
      subst hm hm'
      exact ⟨by rw [dearer, Cost.costPerHour_times], _, rfl⟩

theorem otherPrices_respected [ExactSqrt K] (pricing : Cost.PricingModel K) {k : K} (hk : 0 < k) :
    (otherPrices pricing k).Respected := by
  intro m m' hm
  obtain ⟨rfl, v, hv⟩ := pricedTwice_iff hm
  have hcpu : m.cpuCores.getD (some 0) = some v := by rw [hv]; rfl
  refine ⟨v, v, rfl, rfl, hcpu, hcpu, ?_, ?_, ?_, ?_⟩
  · intro p p' now hp
    obtain rfl : p = p' := hp
    rfl
  · intro p p' tz now hp
    have hjudge := judge_dearer hk hp m tz
    have hoverall := hjudge.stats overallKey
    exact ⟨hoverall.mean, hoverall.stddev hk.le, hjudge, rfl⟩
  · intro p p' tz hp
    exact (shouldFlag_dearer hk hp m tz).symm
  · intro p p' q q' tz hp hq _ id now
    obtain rfl : q = q' := hq
    rw [flagOf_dearer hk hp]
    exact ⟨rfl, rfl⟩

/-! ## What the two runs have in common -/

/-- What a message has for a metric. -/
def valueFor : Tag K → String → Option K
  | .cost m, metric =>
      if metric = metricCost then some m.costPerHour
      else if metric = metricCpu then m.cpuCores.getD (some 0) else none
  | .traffic m, metric => if metric = metricTraffic then some m.requestsPerSecond else none
  | _, _ => none

/-- The bucket a message belongs to. -/
def bucketFor : Tag K → String
  | .cost m => bucketKey m.timestamp
  | .traffic m => bucketKey m.timestamp
  | _ => ""

/-- The z-score of a message, when its thread has loaded a profile: thread, metric, score. -/
def scoredIn : SysEvent K → Option (Nat × String × K)
  | ⟨tid, tag, .loadProfile _ metric, .ok p, _, _⟩ =>
      (valueFor tag metric).map fun v =>
        (tid, metric, scoreIn (BucketStats.fromDict (p (bucketFor tag))) v)
  | _ => none

/-- Whether a message was learned, when its thread saves: the bucket has a value more. -/
def learnedIn : SysEvent K → Option (Nat × String × Bool)
  | ⟨tid, tag, .saveProfile s metric _, _, before, after⟩ =>
      some (tid, metric, decide
        ((BucketStats.fromDict (profileOf after s metric (bucketFor tag))).n
          ≠ (BucketStats.fromDict (profileOf before s metric (bucketFor tag))).n))
  | _ => none

/-- A save: thread, service, metric, row. -/
def savedIn (e : SysEvent K) : Option (Nat × String × String × BaselineRow K) :=
  match e.op with
  | .saveProfile s metric row => some (e.tid, s, metric, row)
  | _ => none

/-- The same save, of a row in another unit. -/
def SavedRescaled (k : K) : (a b : Nat × String × String × BaselineRow K) → Prop
  | (tid, s, metric, row), (tid', s', metric', row') =>
      tid = tid' ∧ s = s' ∧ metric = metric' ∧ BaselineRescaled k metric row row'

/-- Everything is the same but for amounts, which are `k` times as large. -/
structure SameButAmounts (k : K) (c c' : SysConfig K) : Prop where
  scored : c.trace.filterMap scoredIn = c'.trace.filterMap scoredIn
  learned : c.trace.filterMap learnedIn = c'.trace.filterMap learnedIn
  saved : List.Forall₂ (SavedRescaled k) (c.trace.filterMap savedIn) (c'.trace.filterMap savedIn)
  flagged : c.trace.filterMap flaggedIn = c'.trace.filterMap flaggedIn
  published : List.Forall₂ (fun a b => a.1 = b.1 ∧ b.2 = messageDearer k a.2)
    (c.trace.filterMap publishedIn) (c'.trace.filterMap publishedIn)
  baselines : ∀ s metric, Option.Rel (BaselineRescaled k metric) (c.world.baselines s metric)
    (c'.world.baselines s metric)
  anomalies : c'.world.anomalies = c.world.anomalies.map (rowDearer k)
  trafficZ : c.world.trafficZ = c'.world.trafficZ

section

variable {pricing : Cost.PricingModel K} {k : K} {e e' : SysEvent K}

/-- A bucket of profiles that belong together has as many values in both. -/
theorem count_eq_of_profile {metric : String} {p p' : Profile K}
    (h : (otherPrices pricing k).profile metric p p') (key : String) :
    (BucketStats.fromDict (p key)).n = (BucketStats.fromDict (p' key)).n := by
  unfold otherPrices at h
  dsimp only at h
  split at h
  · exact (h.stats key).n.symm
  · rw [h]

theorem bucketFor_eq {tag tag' : Tag K} (h : (otherPrices pricing k).Tags tag tag') :
    bucketFor tag = bucketFor tag' := by
  cases h with
  | traffic m => rfl
  | cost hr =>
      obtain ⟨rfl, -⟩ := pricedTwice_iff hr
      rfl

/-- **What a message has for a metric scores the same.** -/
theorem score_eq [ExactSqrt K] (hk : 0 < k) {tag tag' : Tag K}
    (h : (otherPrices pricing k).Tags tag tag') {metric : String} {p p' : Profile K}
    (hp : (otherPrices pricing k).profile metric p p') (bucket : String) :
    (valueFor tag metric).map (scoreIn (BucketStats.fromDict (p bucket)))
      = (valueFor tag' metric).map (scoreIn (BucketStats.fromDict (p' bucket))) := by
  cases h with
  | traffic m =>
      by_cases hm : metric = metricTraffic
      · subst hm
        rw [(otherPrices pricing k).traffic hp]
      · simp only [valueFor, if_neg hm, Option.map_none]
  | cost hr =>
      obtain ⟨rfl, -⟩ := pricedTwice_iff hr
      unfold otherPrices at hp
      by_cases hm : metric = metricCost
      · simp only [if_pos hm] at hp
        simp only [valueFor, dearer, if_pos hm, Option.map_some, scoreIn_dearer hk hp]
      · simp only [if_neg hm] at hp
        simp only [valueFor, dearer, if_neg hm, hp]

theorem scoredIn_eq [ExactSqrt K] (hk : 0 < k)
    (h : (otherPrices pricing k).coupling.Events e e') : scoredIn e = scoredIn e' := by
  obtain ⟨tid, tag, op, res, before, after⟩ := e
  obtain ⟨tid', tag', op', res', before', after'⟩ := e'
  obtain ⟨rfl, htag, ho, hres, -, -⟩ := h
  cases ho with
  | same hs =>
      cases op with
      | loadProfile s metric =>
          obtain ⟨p, p', rfl, rfl, hp⟩ | ⟨err, rfl, rfl⟩ := hres
          · have hscore := score_eq hk htag hp (bucketFor tag)
            have hmap := congrArg (Option.map fun z => (tid, metric, z)) hscore
            simp only [Option.map_map] at hmap
            rw [scoredIn, scoredIn, ← bucketFor_eq htag]
            exact hmap
          · rfl
      | _ => rfl
  | _ => rfl

theorem learnedIn_eq (h : (otherPrices pricing k).coupling.Events e e') :
    learnedIn e = learnedIn e' := by
  obtain ⟨tid, tag, op, res, before, after⟩ := e
  obtain ⟨tid', tag', op', res', before', after'⟩ := e'
  obtain ⟨rfl, htag, ho, -, hbefore, hafter⟩ := h
  cases ho with
  | save s metric hrow =>
      have hcount : (BucketStats.fromDict (profileOf before s metric (bucketFor tag))).n
          = (BucketStats.fromDict (profileOf before' s metric (bucketFor tag))).n :=
        count_eq_of_profile (hbefore.profile s metric) _
      have hcount' : (BucketStats.fromDict (profileOf after s metric (bucketFor tag))).n
          = (BucketStats.fromDict (profileOf after' s metric (bucketFor tag))).n :=
        count_eq_of_profile (hafter.profile s metric) _
      rw [learnedIn, learnedIn, ← bucketFor_eq htag, hcount, hcount']
  | same hs =>
      cases op with
      | saveProfile s metric row => cases hs
      | _ => rfl
  | _ => rfl

theorem savedIn_rel (h : (otherPrices pricing k).coupling.Events e e') :
    Option.Rel (SavedRescaled k) (savedIn e) (savedIn e') := by
  obtain ⟨tid, tag, op, res, before, after⟩ := e
  obtain ⟨tid', tag', op', res', before', after'⟩ := e'
  obtain ⟨rfl, -, ho, -, -, -⟩ := h
  cases ho with
  | save s metric hrow => exact .some ⟨rfl, rfl, rfl, hrow⟩
  | same hs =>
      cases op with
      | saveProfile s metric row => cases hs
      | _ => exact .none
  | _ => exact .none

end

/--
**Detection depends on relative cost only.**

For every `k > 0`, whatever the schedule of the two consumers and whatever fails: if
the same metric events are priced `k` times as high, the same schedule runs to its
end again from empty state, and the two runs have everything in common but the
amounts, which are `k` times as large.
-/
theorem relative_cost [ExactSqrt K] {cfg : Settings} {pricing : Cost.PricingModel K} {k : K}
    (hk : 0 < k) {acts acts' : List (SysAct K)} (hacts : (otherPrices pricing k).Schedules acts acts')
    {c : SysConfig K}
    (h : (system cfg).steps (fun _ _ => true) ((system cfg).init (World.empty K)) acts = some c) :
    ∃ c', (system cfg).steps (fun _ _ => true) ((system cfg).init (World.empty K)) acts' = some c'
      ∧ SameButAmounts k c c' := by
  have hrespected := otherPrices_respected pricing hk
  obtain ⟨c', h', hc⟩ := Variation.run_together hrespected hacts Variation.Worlds.empty h
  refine ⟨c', h', ?_⟩
  have hrows : ∀ {l l' : List (AnomalyRow K)},
      List.Forall₂ (otherPrices pricing k).anomaly l l' → l' = l.map (rowDearer k) := by
    intro l l' hl
    induction hl with
    | nil => rfl
    | cons hr _ ih => rw [List.map_cons, ih, show _ = _ from hr]
  exact
    { scored := Coupling.filterMap_eq (fun e e' => scoredIn_eq hk) hc.trace
      learned := Coupling.filterMap_eq (fun e e' => learnedIn_eq) hc.trace
      saved := Coupling.filterMap_rel (fun e e' => savedIn_rel) hc.trace
      flagged := Coupling.filterMap_eq (fun e e' => Variation.flaggedIn_eq) hc.trace
      published := Coupling.filterMap_rel (fun e e' => Variation.publishedIn_rel) hc.trace
      baselines := hc.world.baselines
      anomalies := hrows hc.world.anomalies
      trafficZ := hc.world.trafficZ }

namespace Scenario

def pod : ResourceRef := ⟨"c", "shop", "n", some "victim-1", none, some "victim"⟩

/-- The given number of cores in use, and no memory. -/
def ofCores (cores : ℝ) : Cost.MetricEvent ℝ := ⟨pod, cores, 0⟩

noncomputable def dollars : Cost.PricingModel ℝ := ⟨0.031, 0.004⟩

noncomputable def bill (pricing : Cost.PricingModel ℝ) (cores : ℝ) : CostEvent ℝ where
  timestamp := 0
  service := victim
  resource := pod
  costPerHour := pricing.costPerHour cores 0
  cpuCores := some (some cores)

theorem handle_ofCores (pricing : Cost.PricingModel ℝ) (cores : ℝ) :
    Cost.handle pricing 0 (ofCores cores) = some (bill pricing cores) := by
  have hservice : Cost.serviceId pod = some victim := by decide +kernel
  rw [Cost.handle, show (ofCores cores).resource = pod from rfl, hservice]
  rfl

/-- The readings to learn from. -/
noncomputable def usual (pricing : Cost.PricingModel ℝ) : List (CostEvent ℝ) :=
  [bill pricing 1, bill pricing 1.1, bill pricing 1, bill pricing 1.1, bill pricing 1]

/-- A sample of traffic, five usual readings, and three with ten cores in use. -/
noncomputable def bills (pricing : Cost.PricingModel ℝ) : List (Message ℝ) :=
  .traffic ⟨0, victim, 50⟩ :: ((usual pricing).map .cost
    ++ List.replicate 3 (.cost (bill pricing 10)))

theorem bills_priced (pricing : Cost.PricingModel ℝ) (k : ℝ) :
    List.Forall₂ (fun m m' => (otherPrices pricing k).Starts m.start m'.start) (bills pricing)
      (bills (pricing.times k)) := by
  have hbill : ∀ cores, (otherPrices pricing k).Starts (.cost (bill pricing cores))
      (.cost (bill (pricing.times k) cores)) :=
    fun cores => .cost ⟨0, ofCores cores, handle_ofCores _ cores, handle_ofCores _ cores⟩
  exact .cons (.traffic _) (.cons (hbill _) (.cons (hbill _) (.cons (hbill _) (.cons (hbill _)
    (.cons (hbill _) (.cons (hbill _) (.cons (hbill _) (.cons (hbill _) .nil))))))))

/-- The last reading is flagged. -/
theorem bills_flagged : 0 < (memoryOf (World.empty ℝ) victim).flagCount (bills dollars) := by
  -- the first sample scores nothing yet, and the usual readings are learned
  let μ := (memoryOf (World.empty ℝ) victim).handle (.traffic ⟨0, victim, 50⟩)
  have hempty : BucketStats.fromDict (μ.cost (bucketKey 0)) = ⟨0, 0, 0⟩ := rfl
  have hsame : ∀ m ∈ usual dollars, bucketKey m.timestamp = bucketKey 0 := by
    simp [usual, bill]
  have hyoung : (BucketStats.fromDict (μ.cost (bucketKey 0))).n + (usual dollars).length
      ≤ minSamplesForDetection := by
    rw [hempty]
    simp [usual, minSamplesForDetection]
  obtain ⟨hsignal, hflags, hstats⟩ := Memory.handle_young μ (usual dollars) hsame hyoung rfl
  have hlearned : (usual dollars).map CostEvent.costPerHour
      = [0.031, 0.0341, 0.031, 0.0341, 0.031] := by
    norm_num [usual, bill, dollars, Cost.PricingModel.costPerHour]
  have hbucket : ([0.031, 0.0341, 0.031, 0.0341, 0.031] : List ℝ).foldl BucketStats.update ⟨0, 0, 0⟩
      = ⟨5, 0.03224, 0.000011532⟩ := by
    norm_num [BucketStats.update]
  rw [hempty, hlearned, hbucket] at hstats
  have hqual : (Reading.mk (bill dollars 10) (some 0)).qualifies
      (((usual dollars).map Message.cost).foldl Memory.handle μ).cost = true := by
    refine qualifies_iff.mpr ⟨?_, 0, rfl, by norm_num [trafficZCeiling]⟩
    rw [show (Reading.mk (bill dollars 10) (some (0 : ℝ))).bucket = bucketKey 0 from rfl, hstats]
    refine ⟨le_refl 5, ?_⟩
    rw [costZThreshold_eq, BucketStats.lt_zScore_iff (by norm_num) (by norm_num) (by norm_num)]
    norm_num [Reading.value, bill, dollars, Cost.PricingModel.costPerHour, BucketStats.moments,
      Moments.score2]
  have hzero : μ.signal = some 0 := rfl
  have hpos := flagCount_pos _ hflags (hsignal.trans hzero) (by norm_num [trafficZCeiling]) hqual 0
  rw [bills, Memory.flagCount, Memory.flagCount_append]
  exact lt_of_lt_of_le hpos ((Nat.le_add_left _ _).trans (Nat.le_add_left _ _))

end Scenario

open Scenario in
/-- In dollars, or in cents: nine messages, of which the last is flagged. -/
theorem relative_cost_cents :
    ∃ (acts acts' : List (SysAct ℝ)) (c c' : SysConfig ℝ),
      Serves 0 (bills dollars) acts ∧ Serves 0 (bills (dollars.times 100)) acts'
        ∧ (system settings).steps (fun _ _ => true) ((system settings).init (World.empty ℝ)) acts
          = some c
        ∧ (system settings).steps (fun _ _ => true) ((system settings).init (World.empty ℝ)) acts'
          = some c'
        ∧ SameButAmounts 100 c c' ∧ c.world.anomalies ≠ [] := by
  obtain ⟨acts, c, hserves, hsteps, _, hcount⟩ := exists_served settings victim
    (bills dollars) (by simp [bills, usual, bill, Message.Numeric, Message.service])
    (c := (system settings).init (World.empty ℝ)) (fun _ _ => rfl) (fun r hr => nomatch hr)
  obtain ⟨acts', hserves', hacts⟩ := hserves.schedules (bills_priced dollars 100)
  obtain ⟨c', hsteps', hsame⟩ := relative_cost (by norm_num) hacts hsteps
  refine ⟨acts, acts', c, c', hserves, hserves', hsteps, hsteps', hsame, ?_⟩
  rw [← List.length_pos_iff_ne_nil, hcount]
  exact lt_of_lt_of_le bills_flagged (Nat.le_add_left _ _)

end Proof

end HyperTrace
