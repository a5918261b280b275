import HyperTrace.Proof.Serving

/-!
# A genuine shift is accepted

When every reading is the same value, each one learned brings the bucket closer to
it, and at least one in thirty-one is learned. After `k` copies the squared score is
at most `n / k`, whatever the bucket held before, so from `k = n / 9` on the value
scores no more than 3 and cannot qualify.
-/

namespace HyperTrace.Behaviour

open Numeric

variable {K : Type} [Scalar K]

theorem costZThreshold_eq : (costZThreshold : K) = 3 := by
  norm_num [costZThreshold]

theorem trafficZComovement_eq : (trafficZComovement : K) = 3 := by
  norm_num [trafficZComovement]

/-- **Of any thirty-one readings in a row, one is learned.** -/
theorem length_le_learned (p : Profile K) (rs : List (Reading K)) :
    rs.length ≤ 31 * (learned p rs).length + min (flags (after p rs)).consecutive 30 := by
  induction rs with
  | nil => simp [learned]
  | cons r rs ih =>
      have hstep : learned p (r :: rs)
          = if (r.admitted (after p rs)).1 then r.sample :: learned p rs else learned p rs := rfl
      rw [after_cons, flags_judge, hstep, List.length_cons]
      -- a reading that does not qualify is learned; of those that do, each thirty-first
      cases hq : r.qualifies (after p rs) with
      | false =>
          rw [admitted_of_not hq, if_pos rfl, List.length_cons]
          omega
      | true =>
          rw [admitted_of_qualifies hq]
          by_cases hlast : (flags (after p rs)).consecutive ≥ 30
          · rw [if_pos hlast, if_pos rfl, List.length_cons]
            omega
          · rw [if_neg hlast, if_neg Bool.false_ne_true]
            dsimp only
            omega

/-- **The bucket has seen as many copies of the value as were learned.** -/
theorem stats_after {p : Profile K} {bucket : String} {v : K} {rs : List (Reading K)}
    (hall : ∀ r ∈ rs, r.bucket = bucket ∧ r.value = v) :
    BucketStats.fromDict (after p rs bucket)
      = (fun s => s.update v)^[(learned p rs).length] (BucketStats.fromDict (p bucket)) := by
  induction rs with
  | nil => rfl
  | cons r rs ih =>
      have ih := ih fun r' hr' => hall r' (List.mem_cons_of_mem _ hr')
      obtain ⟨hbucket, hvalue⟩ := hall r (List.mem_cons_self ..)
      have hkey : bucket ≠ flagStateKey := hbucket ▸ bucketKey_ne_flagState _
      have hkey' : bucket ≠ overallKey := hbucket ▸ bucketKey_ne_overall _
      have hstep : learned p (r :: rs)
          = if (r.admitted (after p rs)).1 then r.sample :: learned p rs else learned p rs := rfl
      rw [after_cons, hstep]
      cases hadm : (r.admitted (after p rs)).1 with
      | false => rw [judge_of_suppressed hadm hkey, if_neg Bool.false_ne_true, ih]
      | true =>
          rw [judge_of_admitted hadm hkey, if_pos rfl, List.length_cons,
            Function.iterate_succ_apply', ← ih, learn, put_ne _ _ hkey', hbucket, hvalue, put_self,
            BucketStats.fromDict_stats]

variable [ExactSqrt K]

/-- A value that a bucket has seen often enough does not qualify. -/
theorem zScore_iterate_le {s : BucketStats K} (hm : 0 ≤ s.m2) (v : K) {k : ℕ} (hk : 0 < k)
    (hn : s.n ≤ 9 * k) : ((fun t => t.update v)^[k] s).zScore v ≤ 3 := by
  have hmom := BucketStats.moments_iterate s v k
  have hbound := Moments.mul_sq_iterate_le (s := s.moments) hm v hk
  rw [← hmom] at hbound
  have hspread := BucketStats.iterate_m2_nonneg hm v k
  refine BucketStats.zScore_le hspread (by norm_num) ?_
  have hk' : (0 : K) < k := by exact_mod_cast hk
  have hn' : ((s.n : ℕ) : K) ≤ 9 * k := by exact_mod_cast hn
  rw [BucketStats.iterate_n]
  refine le_of_mul_le_mul_right ?_ hk'
  calc (v - ((fun t => t.update v)^[k] s).mean) ^ 2 * ((s.n + k - 1 : ℕ) : K) * k
      ≤ s.n * ((fun t => t.update v)^[k] s).m2 := hbound
    _ ≤ 9 * k * ((fun t => t.update v)^[k] s).m2 := mul_le_mul_of_nonneg_right hn' hspread
    _ = 3 ^ 2 * ((fun t => t.update v)^[k] s).m2 * k := by ring

/-- **After `31 · ⌈n / 9⌉` equal readings the next one does not qualify.** -/
theorem not_qualifies_of_shift {p : Profile K} {bucket : String} {v : K}
    (hm : 0 ≤ (BucketStats.fromDict (p bucket)).m2) {r : Reading K} {rs : List (Reading K)}
    (hall : ∀ r' ∈ r :: rs, r'.bucket = bucket ∧ r'.value = v)
    (hlen : 31 * ⌈((BucketStats.fromDict (p bucket)).n : ℚ) / 9⌉₊ ≤ rs.length) :
    r.qualifies (after p rs) = false := by
  obtain ⟨hbucket, hvalue⟩ := hall r (List.mem_cons_self ..)
  have hstats := stats_after (p := p) fun r' hr' => hall r' (List.mem_cons_of_mem r hr')
  have hn : (BucketStats.fromDict (p bucket)).n
      ≤ 9 * ⌈((BucketStats.fromDict (p bucket)).n : ℚ) / 9⌉₊ := by
    have hceil := Nat.le_ceil (((BucketStats.fromDict (p bucket)).n : ℚ) / 9)
    rw [div_le_iff₀ (by norm_num)] at hceil
    exact_mod_cast hceil.trans (le_of_eq (mul_comm _ _))
  have hlearned := length_le_learned p rs
  rw [Bool.eq_false_iff]
  intro hq
  obtain ⟨⟨hmature, hz⟩, _⟩ := qualifies_iff.mp hq
  rw [hbucket, hstats] at hmature hz
  rw [BucketStats.iterate_n] at hmature
  rw [hvalue] at hz
  generalize (learned p rs).length = k at hlearned hmature hz
  have hk : (BucketStats.fromDict (p bucket)).n ≤ 9 * k := by omega
  by_cases hzero : k = 0
  · -- nothing learned, because there was nothing to outweigh: the bucket is still empty
    simp only [minSamplesForDetection] at hmature
    omega
  -- enough copies were learned to bound the score by the threshold
  · have hle := zScore_iterate_le hm v (Nat.pos_of_ne_zero hzero) hk
    rw [costZThreshold_eq] at hz
    exact absurd hle (not_le.mpr hz)

end HyperTrace.Behaviour

namespace HyperTrace.Proof

open HyperTrace Effect Behaviour Numeric

variable {K : Type} [Scalar K] [ExactSqrt K] {cfg : Settings}
variable {P : SysConfig K → SysAct K → Prop} {w : World K} {c : SysConfig K}

omit [ExactSqrt K] in
/-- Where all cost messages of a service are alike, so are the readings that are judged. -/
theorem judged_alike (h : (system cfg).Run P w c) {service bucket : String} {v : K}
    (hall : ∀ t ∈ c.threads, ∀ m, t.tag = .cost m → m.service = service →
      bucketKey m.timestamp = bucket ∧ m.costPerHour = v) :
    ∀ r ∈ judged service false c.trace, r.bucket = bucket ∧ r.value = v := by
  intro r hr
  obtain ⟨e, pre, he, hop, hread⟩ := mem_saves hr
  obtain ⟨row, hop⟩ := savesOf_eq hop
  obtain ⟨r', _, hr', hservice, htag, _⟩ := judge_of_save h he hop
  obtain rfl : r' = r := Option.some.inj (hr'.symm.trans hread)
  obtain ⟨t, ht, htt⟩ := h.tag_of_mem (he.subset (List.mem_cons_self ..))
  exact hall t (List.mem_of_getElem? ht) _ (htt.trans htag) hservice

/--
**A genuine shift is accepted in bounded time.**

From any stored profile on, if all cost messages of a service carry the same value
into the same bucket, then of the readings handled none that comes after the first
`31 · ⌈n / 9⌉` qualifies or is flagged, `n` being what the bucket held.
-/
theorem shift_accepted (h : (system cfg).Run P w c) {service bucket : String} {v : K}
    (hm : 0 ≤ (BucketStats.fromDict (profileOf w service metricCost bucket)).m2)
    (hall : ∀ t ∈ c.threads, ∀ m, t.tag = .cost m → m.service = service →
      bucketKey m.timestamp = bucket ∧ m.costPerHour = v) :
    ∃ rs, (judged service true c.trace).Sublist rs ∧ rs.Sublist (judged service false c.trace)
      ∧ profileOf c.world service metricCost = after (profileOf w service metricCost) rs
      ∧ ∀ r rs', r :: rs' <:+ rs →
        31 * ⌈((BucketStats.fromDict (profileOf w service metricCost bucket)).n : ℚ) / 9⌉₊
          ≤ rs'.length →
        r.qualifies (after (profileOf w service metricCost) rs') = false
          ∧ r.shouldFlag (after (profileOf w service metricCost) rs') = false := by
  obtain ⟨rs, hconf, hsub, hrs⟩ := exists_saved readingOf Reading.judge h
    fun e pre row he hop => by
      obtain ⟨r, now, hr, _, _, hrow⟩ := judge_of_save h he hop
      exact ⟨r, hr, by rw [hrow]; rfl⟩
  refine ⟨rs, hconf, hsub, hrs, ?_⟩
  intro r rs' hsuf hlen
  have hsame : ∀ r' ∈ r :: rs', r'.bucket = bucket ∧ r'.value = v :=
    fun r' hr' => judged_alike h hall r' (hsub.subset (hsuf.subset hr'))
  have hq := not_qualifies_of_shift hm hsame hlen
  refine ⟨hq, ?_⟩
  rw [Reading.shouldFlag, hq, Bool.false_and]

/-! ## A shift to ten times the cost -/

omit [ExactSqrt K] in
/-- What is left of the memory by one reading, again and again. -/
theorem foldl_replicate (μ : Memory K) (m : CostEvent K) (n : ℕ) :
    (List.replicate n (Message.cost m)).foldl Memory.handle μ
      = { μ with cost := after μ.cost (List.replicate n ⟨m, μ.signal⟩) } := by
  induction n generalizing μ with
  | zero => rfl
  | succ n ih =>
      rw [List.replicate_succ, List.foldl_cons, ih, List.replicate_succ']
      simp only [Memory.handle, after, List.foldr_append]
      rfl

omit [ExactSqrt K] in
/-- Three readings that stand out in a row, on flat traffic, are an alert. -/
theorem flagCount_pos (μ : Memory K) {m : CostEvent K} {z : K} (hflags : flags μ.cost = ⟨0, 0⟩)
    (hsignal : μ.signal = some z) (hz : z < trafficZCeiling)
    (hq : (Reading.mk m (some z)).qualifies μ.cost = true) (n : ℕ) :
    0 < μ.flagCount (List.replicate (n + 3) (.cost m)) := by
  have hthird := (incident_flagged (l := List.replicate 3 (Reading.mk m (some z)))
    (r := ⟨m, some z⟩) (t := List.replicate 2 ⟨m, some z⟩) hflags
    (show streak μ.cost [] = 0 from rfl) hq (by simp)
    (fun r hr => List.eq_of_mem_replicate hr ▸ ⟨rfl, rfl⟩)
    (fun r hr => ⟨z, by rw [List.eq_of_mem_replicate hr], hz⟩) (List.suffix_refl _)).2.mpr
    (le_refl 2)
  have hflag : ((μ.handle (.cost m)).handle (.cost m)).flagged (.cost m) = true := by
    have hfold := foldl_replicate μ m 2
    rw [hsignal] at hfold
    rw [show (μ.handle (.cost m)).handle (.cost m) = _ from hfold]
    exact hthird
  rw [show n + 3 = n + 1 + 1 + 1 from rfl, List.replicate_succ, List.replicate_succ,
    List.replicate_succ]
  simp only [Memory.flagCount, hflag, Bool.toNat_true]
  omega

omit [ExactSqrt K] in
theorem learned_length_le (p : Profile K) (rs : List (Reading K)) :
    (learned p rs).length ≤ rs.length := by
  induction rs with
  | nil => exact le_refl _
  | cons r rs ih =>
      rw [learned]
      split
      · exact Nat.succ_le_succ ih
      · exact ih.trans (Nat.le_succ _)

omit [ExactSqrt K] in
/-- Readings of one value that come to the same have the same number of learned ones. -/
theorem learned_length_eq {p : Profile K} {rs rs' : List (Reading K)} {bucket : String} {v : K}
    (h : ∀ r ∈ rs, r.bucket = bucket ∧ r.value = v)
    (h' : ∀ r ∈ rs', r.bucket = bucket ∧ r.value = v) (hsame : after p rs = after p rs') :
    (learned p rs).length = (learned p rs').length := by
  have hstats := stats_after (p := p) h
  rw [hsame, stats_after h'] at hstats
  have hlen := congrArg BucketStats.n hstats
  rw [BucketStats.iterate_n, BucketStats.iterate_n] at hlen
  omega

namespace Scenario

/-- A cost reading over the reals. -/
def realCost : CostEvent ℝ where
  timestamp := 0
  service := victim
  resource := ⟨"c", "shop", "n", none, none, none⟩
  costPerHour := 100
  cpuCores := none

/-- Five readings around 1 have been learned, and the traffic is flat. -/
noncomputable def calm : World ℝ :=
  { (World.empty ℝ).saveProfile victim metricCost
      ⟨0, 0, put (fun _ => none) (bucketKey 0) (.stats ⟨5, 1, 1⟩), 0⟩ with
    trafficZ := put (fun _ => none) victim 0 }

theorem calm_profile : profileOf calm victim metricCost
    = put (fun _ => none) (bucketKey 0) (.stats ⟨5, 1, 1⟩) := by
  simp [profileOf, calm, World.saveProfile]

theorem calm_bucket : BucketStats.fromDict (profileOf calm victim metricCost (bucketKey 0))
    = ⟨5, 1, 1⟩ := by
  rw [calm_profile, put_self]
  rfl

theorem calm_signal : calm.trafficZ victim = some 0 := put_self (fun _ => none) victim 0

theorem calm_flags : flags (profileOf calm victim metricCost) = ⟨0, 0⟩ := by
  rw [calm_profile, flags, put_ne _ _ (bucketKey_ne_flagState 0).symm]
  rfl

/-- The new cost stands out. -/
theorem realCost_qualifies :
    (Reading.mk realCost (some 0)).qualifies (profileOf calm victim metricCost) = true := by
  refine qualifies_iff.mpr ⟨?_, 0, rfl, by norm_num [trafficZCeiling]⟩
  rw [show (Reading.mk realCost (some (0 : ℝ))).bucket = bucketKey 0 from rfl, calm_bucket]
  refine ⟨le_refl 5, ?_⟩
  rw [costZThreshold_eq, BucketStats.lt_zScore_iff (by norm_num) (by norm_num) (by norm_num)]
  norm_num [Reading.value, realCost, BucketStats.moments, Moments.score2]

end Scenario

open Scenario in
/--
Of twelve hundred readings at ten times the cost the first qualifies, and the third is
flagged; none that comes after the first thirty-one qualifies.
-/
theorem shift_accepted_tenfold :
    ∃ (c : SysConfig ℝ) (rs : List (Reading ℝ)),
      profileOf c.world victim metricCost = after (profileOf calm victim metricCost) rs
      ∧ (Reading.mk realCost (calm.trafficZ victim)).qualifies (profileOf calm victim metricCost)
          = true
      ∧ c.world.anomalies ≠ [] ∧ 31 < rs.length
      ∧ ∀ r rs', r :: rs' <:+ rs → 31 ≤ rs'.length →
        r.qualifies (after (profileOf calm victim metricCost) rs') = false
          ∧ r.shouldFlag (after (profileOf calm victim metricCost) rs') = false := by
  obtain ⟨n, hn⟩ : ∃ n, n = 1197 := ⟨_, rfl⟩
  obtain ⟨acts, c, hserves, hsteps, hmem, hcount⟩ := exists_served settings victim
    (List.replicate (n + 3) (.cost realCost))
    (fun m hm => List.eq_of_mem_replicate hm ▸ ⟨⟨0, rfl⟩, rfl⟩)
    (c := (system settings).init calm) (fun _ _ => rfl) (fun r hr => nomatch hr)
  have hrun := System.Run.steps (w := calm) .init (fun _ ha => ha) hsteps
  -- every thread handles that one message
  have hall : ∀ t ∈ c.threads, ∀ m, t.tag = .cost m → m.service = victim →
      bucketKey m.timestamp = bucketKey 0 ∧ m.costPerHour = 100 := by
    intro t ht m htag _
    obtain ⟨i, hi⟩ := List.mem_iff_getElem?.mp ht
    obtain ⟨c₀, x, w', p, _, hp, _, hst, _⟩ := hrun.started hi
    obtain ⟨m', hm', rfl⟩ := hserves.mem hp.2
    obtain rfl := List.eq_of_mem_replicate hm'
    rw [htag] at hst
    have hm := start_cost hst
    injection hm with hm
    subst hm
    exact ⟨rfl, rfl⟩
  have hm : 0 ≤ (BucketStats.fromDict (profileOf calm victim metricCost (bucketKey 0))).m2 := by
    rw [calm_bucket]
    norm_num
  obtain ⟨rs, _, hsub, hrs, hnot⟩ := shift_accepted hrun hm hall
  -- as many were learned as if all the readings had been judged, one in thirty-one at least
  have hlong : 31 < rs.length := by
    have hcost := (congrArg Memory.cost hmem).trans
      (congrArg Memory.cost (foldl_replicate (memoryOf calm victim) realCost (n + 3)))
    have hsame : after (profileOf calm victim metricCost) rs
        = after (profileOf calm victim metricCost)
          (List.replicate (n + 3) ⟨realCost, calm.trafficZ victim⟩) := hrs.symm.trans hcost
    have hreadings : ∀ r ∈ List.replicate (n + 3) (Reading.mk realCost (calm.trafficZ victim)),
        r.bucket = bucketKey 0 ∧ r.value = 100 :=
      fun r hr => List.eq_of_mem_replicate hr ▸ ⟨rfl, rfl⟩
    have hlen := learned_length_eq (fun r hr => judged_alike hrun hall r (hsub.subset hr))
      hreadings hsame
    have hlearned := length_le_learned (profileOf calm victim metricCost)
      (List.replicate (n + 3) ⟨realCost, calm.trafficZ victim⟩)
    rw [List.length_replicate] at hlearned
    have hle := learned_length_le (profileOf calm victim metricCost) rs
    omega
  rw [calm_bucket] at hnot
  refine ⟨c, rs, hrs, ?_, ?_, hlong, fun r rs' hsuf hlen => hnot r rs' hsuf ?_⟩
  · rw [calm_signal]
    exact realCost_qualifies
  · have hpos := flagCount_pos (memoryOf calm victim) calm_flags calm_signal
      (by norm_num [trafficZCeiling]) realCost_qualifies n
    rw [← List.length_pos_iff_ne_nil, hcount]
    exact lt_of_lt_of_le hpos (Nat.le_add_left _ _)
  · refine le_trans (le_of_eq ?_) hlen
    have hceil : ⌈((5 : ℕ) : ℚ) / 9⌉₊ = 1 := by
      rw [Nat.ceil_eq_iff (by decide)]
      norm_num
    rw [hceil]

end HyperTrace.Proof
