import HyperTrace.Proof.Learning
import HyperTrace.Proof.Scoring

/-!
# Baselines are exact summaries

A bucket entry is written by Welford's recurrence, one save at a time, through the
database in between. `Learning` says which values that recurrence was run on, and
`Numeric.Moments` that it computes the count, the mean and the squared deviations
of all of them. What remains is that a bucket's entry is only ever changed together
with the overall entry, by the values of that bucket, and that the counters, kept
under a key of the same dictionary, are in nobody's way.
-/

namespace HyperTrace.Behaviour

open Numeric

variable {K : Type} [Scalar K]

/-! ## Keys -/

theorem mem_bucketKey (t : Time) : '-' ∈ (bucketKey t).toList := by
  unfold bucketKey
  simp only [String.toList_append, List.mem_append]
  exact Or.inl (Or.inr (by decide))

theorem bucketKey_ne {t : Time} {key : String} (h : '-' ∉ key.toList) : bucketKey t ≠ key := by
  intro heq
  exact h (heq ▸ mem_bucketKey t)

theorem bucketKey_ne_overall (t : Time) : bucketKey t ≠ overallKey := bucketKey_ne (by decide)

theorem bucketKey_ne_flagState (t : Time) : bucketKey t ≠ flagStateKey := bucketKey_ne (by decide)

/-! ## What an entry should be -/

/-- The statistics of a list of values. -/
def statsOf (vs : List K) : BucketStats K := ⟨vs.length, average vs, deviations vs (average vs)⟩

/-- The entry that summarises a list of values: none before there is a value. -/
def summary (vs : List K) : Option (ProfileEntry K) :=
  if vs.isEmpty then none else some (.stats (statsOf vs))

/-- `stdev`: the root of the sample variance, and 0 while there is none. -/
def sampleStddev (vs : List K) : K :=
  if vs.length < 2 then 0
  else Scalar.sqrt (deviations vs (average vs) / ((vs.length - 1 : ℕ) : K))

/-- The values of one bucket. -/
def valuesIn (bucket : String) (xs : List (Sample K)) : List K :=
  (xs.filter fun s => s.bucket = bucket).map Sample.value

theorem update_statsOf (v : K) (vs : List K) : (statsOf vs).update v = statsOf (v :: vs) := by
  exact congrArg (fun m : Moments K => (⟨m.n, m.mean, m.m2⟩ : BucketStats K))
    (Moments.push_ofList v vs)

@[simp] theorem fromDict_summary (vs : List K) :
    BucketStats.fromDict (summary vs) = statsOf vs := by
  unfold summary
  cases vs with
  | nil => simp [statsOf, BucketStats.empty, average, deviations]
  | cons v vs => rfl

theorem summary_cons (v : K) (vs : List K) :
    summary (v :: vs) = some (.stats ((BucketStats.fromDict (summary vs)).update v)) := by
  rw [fromDict_summary, update_statsOf]
  rfl

theorem stddev_statsOf (vs : List K) : (statsOf vs).stddev = sampleStddev vs := rfl

theorem deviations_nonneg (vs : List K) (a : K) : 0 ≤ deviations vs a := by
  refine List.sum_nonneg ?_
  intro x hx
  obtain ⟨v, _, rfl⟩ := List.mem_map.mp hx
  exact sq_nonneg _

/-! ## What a fold of samples leaves -/

/-- The profile summarises the samples: each bucket its own, and `_overall` all of them. -/
structure Summarises (p : Profile K) (xs : List (Sample K)) : Prop where
  bucket : ∀ b, b ≠ overallKey → b ≠ flagStateKey → p b = summary (valuesIn b xs)
  overall : p overallKey = summary (xs.map Sample.value)

theorem Summarises.nil : Summarises (fun _ => none : Profile K) [] where
  bucket _ _ _ := rfl
  overall := rfl

/-- **One more sample learned is one more value summarised.** -/
theorem Summarises.learn {p : Profile K} {xs : List (Sample K)} (h : Summarises p xs)
    {s : Sample K} (hover : s.bucket ≠ overallKey) (hflag : s.bucket ≠ flagStateKey) :
    Summarises (s.learn p) (s :: xs) where
  bucket b hb hb' := by
    unfold Sample.learn Behaviour.learn
    rw [put_ne _ _ hb]
    by_cases heq : b = s.bucket
    · subst heq
      have hin : valuesIn s.bucket (s :: xs) = s.value :: valuesIn s.bucket xs := by
        simp [valuesIn]
      rw [put_self, hin, summary_cons, h.bucket _ hover hflag]
    · have hout : valuesIn b (s :: xs) = valuesIn b xs := by
        simp [valuesIn, Ne.symm heq]
      rw [put_ne _ _ heq, hout, h.bucket b hb hb']
  overall := by
    unfold Sample.learn Behaviour.learn
    rw [put_self, List.map_cons, summary_cons, h.overall]

/-- The counters live under a key of their own. -/
theorem Summarises.flags {p : Profile K} {xs : List (Sample K)} (h : Summarises p xs)
    (f : FlagState) : Summarises (put p flagStateKey (.flags f)) xs where
  bucket b hb hb' := by rw [put_ne _ _ hb', h.bucket b hb hb']
  overall := by rw [put_ne _ _ (by decide), h.overall]

/-- No squared deviations are negative, in whatever entry. -/
theorem Summarises.m2_nonneg {p : Profile K} {xs : List (Sample K)} (h : Summarises p xs)
    {key : String} (hkey : key ≠ flagStateKey) : 0 ≤ (BucketStats.fromDict (p key)).m2 := by
  by_cases hover : key = overallKey
  · rw [hover, h.overall, fromDict_summary]
    exact deviations_nonneg _ _
  · rw [h.bucket key hover hkey, fromDict_summary]
    exact deviations_nonneg _ _

theorem summarises_samples {xs : List (Sample K)}
    (hxs : ∀ s ∈ xs, s.bucket ≠ overallKey ∧ s.bucket ≠ flagStateKey) :
    Summarises (xs.foldr Sample.learn fun _ => none) xs := by
  induction xs with
  | nil => exact .nil
  | cons s xs ih =>
      obtain ⟨hover, hflag⟩ := hxs s (List.mem_cons_self ..)
      exact (ih fun s' hs' => hxs s' (List.mem_cons_of_mem _ hs')).learn hover hflag

/-! ## What a fold of cost readings leaves -/

def Reading.sample (r : Reading K) : Sample K := ⟨r.bucket, r.value⟩

/-- The samples of the readings that `_should_learn` allowed, each when its turn came. -/
def learned (p : Profile K) : List (Reading K) → List (Sample K)
  | [] => []
  | r :: rs =>
      if (r.admitted (rs.foldr Reading.judge p)).1 then r.sample :: learned p rs else learned p rs

theorem summarises_readings (rs : List (Reading K)) :
    Summarises (rs.foldr Reading.judge fun _ => none) (learned (fun _ => none) rs) := by
  induction rs with
  | nil => exact .nil
  | cons r rs ih =>
      rw [List.foldr_cons]
      refine Summarises.flags ?_ _
      simp only [learned]
      split
      · exact ih.learn (s := r.sample) (bucketKey_ne_overall _) (bucketKey_ne_flagState _)
      · exact ih

end HyperTrace.Behaviour

namespace HyperTrace.Proof

open HyperTrace Effect Behaviour Numeric

variable {K : Type} [Scalar K] {cfg : Settings}
variable {P : SysConfig K → SysAct K → Prop} {w : World K} {c : SysConfig K}

/-! ## The derived columns -/

/-- Every row a save writes derives its columns from its own profile. -/
theorem derived_of_save (h : (system cfg).Run P w c) {e : SysEvent K} {pre : List (SysEvent K)}
    (he : e :: pre <:+ c.trace) {service metric : String} {row : BaselineRow K}
    (hop : e.op = .saveProfile service metric row) : ∃ p now, row = baselineRow p now := by
  have hstores := stores_of_suffix h he hop
  generalize e.tag = tag at hstores
  generalize hist pre e.tid = t at hstores
  cases hstores with
  | traffic => exact ⟨_, _, rfl⟩
  | cpu => exact ⟨_, _, rfl⟩
  | cost => exact ⟨_, _, rfl⟩

/-- **So does every row there is.** -/
theorem columns_derived (h : (system cfg).Run P w c) {service metric : String}
    (hw : w.baselines service metric = none) {row : BaselineRow K}
    (hrow : c.world.baselines service metric = some row) :
    row.rollingMean = (BucketStats.fromDict (row.profile overallKey)).mean
      ∧ row.rollingStddev = (BucketStats.fromDict (row.profile overallKey)).stddev := by
  -- take the save the row comes from
  have harises := h.arises (F := fun v => v.baselines service metric = some row) ?_ ?_ hrow
  · rcases harises with hinit | ⟨e, pre, he, hbefore, hafter⟩
    · rw [hw] at hinit
      cases hinit
    · rcases (changes_of_suffix h he).baselines with hsame | ⟨s, m, row', hop, hsaved⟩
      · exact absurd (hsame ▸ hafter) hbefore
      · obtain ⟨p, now, rfl⟩ := derived_of_save h he hop
        rw [hsaved] at hafter
        simp only [World.saveProfile] at hafter
        split at hafter
        · cases hafter
          exact ⟨rfl, rfl⟩
        · exact absurd hafter hbefore
  · intro c₀ x w' tag p _ _ hs hF
    rw [← (start_starts hs).1.baselines]
    exact hF
  · intro c₀ e _ _ hF
    cases e <;> exact hF

/-! ## In every run -/

/-- The stored baseline of a metric is the exact summary of the samples. -/
structure Summary (w : World K) (service metric : String) (xs : List (Sample K)) : Prop where
  /-- Each bucket holds the count, the mean and the squared deviations of its own values. -/
  bucket : ∀ b, b ≠ overallKey → b ≠ flagStateKey →
    profileOf w service metric b = summary (valuesIn b xs)
  /-- `_overall` holds those of all of them. -/
  overall : profileOf w service metric overallKey = summary (xs.map Sample.value)
  mean : ∀ row, w.baselines service metric = some row →
    row.rollingMean = average (xs.map Sample.value)
  stddev : ∀ row, w.baselines service metric = some row →
    row.rollingStddev = sampleStddev (xs.map Sample.value)
  spread : ∀ key, key ≠ flagStateKey →
    0 ≤ (BucketStats.fromDict (profileOf w service metric key)).m2

theorem summary_of_summarises (h : (system cfg).Run P (World.empty K) c) {service metric : String}
    {xs : List (Sample K)} (hxs : Summarises (profileOf c.world service metric) xs) :
    Summary c.world service metric xs where
  bucket := hxs.bucket
  overall := hxs.overall
  mean row hrow := by
    have hover := hxs.overall
    rw [profileOf, hrow] at hover
    rw [(columns_derived h rfl hrow).1, show row.profile overallKey = _ from hover,
      fromDict_summary]
    rfl
  stddev row hrow := by
    have hover := hxs.overall
    rw [profileOf, hrow] at hover
    rw [(columns_derived h rfl hrow).2, show row.profile overallKey = _ from hover,
      fromDict_summary, stddev_statsOf]
  spread key hkey := hxs.m2_nonneg hkey

/-- The samples a service's CPU or traffic profile was saved for, newest first. -/
def sampled (service metric : String) (confirmed : Bool) (tr : List (SysEvent K)) :
    List (Sample K) :=
  saves service metric (fun e _ => sampleOf e.tag) confirmed tr

/-- The readings a service's cost profile was saved for, newest first. -/
def judged (service : String) (confirmed : Bool) (tr : List (SysEvent K)) : List (Reading K) :=
  saves service metricCost readingOf confirmed tr

omit [Scalar K] in
theorem mem_saves {α : Type} {service metric : String}
    {f : SysEvent K → List (SysEvent K) → Option α} {confirmed : Bool} {a : α}
    {tr : List (SysEvent K)} (ha : a ∈ saves service metric f confirmed tr) :
    ∃ e pre, e :: pre <:+ tr ∧ savesOf service metric e.op = true ∧ f e pre = some a := by
  induction tr with
  | nil => cases ha
  | cons e tr ih =>
      have htail : a ∈ saves service metric f confirmed tr →
          ∃ e' pre, e' :: pre <:+ e :: tr ∧ savesOf service metric e'.op = true
            ∧ f e' pre = some a := by
        intro ha
        obtain ⟨e', pre, hsuf, hf⟩ := ih ha
        exact ⟨e', pre, hsuf.trans (List.suffix_cons _ _), hf⟩
      simp only [saves] at ha
      split at ha
      · rename_i hop
        rcases List.mem_append.mp ha with ha | ha
        · exact ⟨e, tr, List.suffix_refl _, (Bool.and_eq_true_iff.mp hop).1, by simpa using ha⟩
        · exact htail ha
      · exact htail ha

theorem bucket_of_sampled {service metric : String} {tr : List (SysEvent K)} {s : Sample K}
    (hs : s ∈ sampled service metric false tr) :
    s.bucket ≠ overallKey ∧ s.bucket ≠ flagStateKey := by
  obtain ⟨e, pre, _, _, hs⟩ := mem_saves hs
  have hkey : ∃ t, s.bucket = bucketKey t := by
    generalize e.tag = tag at hs
    cases tag with
    | traffic m =>
        cases hs
        exact ⟨_, rfl⟩
    | cost m =>
        obtain ⟨v, _, rfl⟩ := Option.map_eq_some_iff.mp hs
        exact ⟨_, rfl⟩
    | _ => cases hs
  obtain ⟨t, ht⟩ := hkey
  rw [ht]
  exact ⟨bucketKey_ne_overall t, bucketKey_ne_flagState t⟩

/-- **The CPU and the traffic baseline summarise every sample.** -/
theorem sampled_summary (h : (system cfg).Run P (World.empty K) c) (service : String)
    {metric : String} (hmetric : metric ≠ metricCost) :
    ∃ xs, (sampled service metric true c.trace).Sublist xs
      ∧ xs.Sublist (sampled service metric false c.trace)
      ∧ Summary c.world service metric xs := by
  obtain ⟨xs, hconf, hall, hxs⟩ := exists_saved (fun e _ => sampleOf e.tag)
    Sample.learn h fun e pre row he hop => by
      obtain ⟨s, now, hs, _, hrow⟩ := learn_of_save h he hop hmetric
      exact ⟨s, hs, by rw [hrow]; rfl⟩
  refine ⟨xs, hconf, hall, summary_of_summarises h ?_⟩
  rw [hxs]
  exact summarises_samples fun s hs => bucket_of_sampled (hall.subset hs)

/-- **The cost baseline summarises the readings that were learned.** -/
theorem judged_summary (h : (system cfg).Run P (World.empty K) c) (service : String) :
    ∃ rs, (judged service true c.trace).Sublist rs ∧ rs.Sublist (judged service false c.trace)
      ∧ profileOf c.world service metricCost = rs.foldr Reading.judge (fun _ => none)
      ∧ Summary c.world service metricCost (learned (fun _ => none) rs) := by
  obtain ⟨rs, hconf, hall, hrs⟩ := exists_saved readingOf Reading.judge h
    fun e pre row he hop => by
      obtain ⟨r, now, hr, _, _, hrow⟩ := judge_of_save h he hop
      exact ⟨r, hr, by rw [hrow]; rfl⟩
  refine ⟨rs, hconf, hall, hrs, summary_of_summarises h ?_⟩
  rw [hrs]
  exact summarises_readings rs

/-! ## What is acknowledged is learned -/

omit [Scalar K] in
theorem mem_saves_of {α : Type} {service metric : String}
    {f : SysEvent K → List (SysEvent K) → Option α} {a : α} {tr : List (SysEvent K)}
    {e : SysEvent K} {pre : List (SysEvent K)} (he : e :: pre <:+ tr)
    (hop : savesOf service metric e.op = true) (hok : e.call.isOk = true) (ha : f e pre = some a) :
    a ∈ saves service metric f true tr := by
  induction tr with
  | nil => cases List.suffix_nil.mp he
  | cons e' tr ih =>
      rcases List.suffix_cons_iff.mp he with heq | hsuf
      · cases heq
        rw [saves_cons hop ha, if_pos (by simp [hok])]
        exact List.mem_cons_self ..
      · have hmem := ih hsuf
        simp only [saves]
        split
        · exact List.mem_append_right _ hmem
        · exact hmem

/-- A confirmed save in a transcript is one of the trace. -/
theorem mem_saves_of_saved {α : Type} (h : (system cfg).Run P w c) {pre : List (SysEvent K)}
    (hpre : pre <:+ c.trace) {i : Nat} {service metric : String}
    (hs : Saved service metric (hist pre i)) {f : SysEvent K → List (SysEvent K) → Option α}
    {q : α → Prop} (hf : ∀ e pre' row, e :: pre' <:+ pre → e.tid = i →
      e.op = .saveProfile service metric row → ∃ a, f e pre' = some a ∧ q a) :
    ∃ a ∈ saves service metric f true pre, q a := by
  obtain ⟨row, hrow⟩ := hs
  obtain ⟨e, pre', x, he, hi, hcall, _⟩ := answered h hpre hrow
  have hop : e.op = .saveProfile service metric row := congrArg Call.op hcall
  obtain ⟨a, ha, hq⟩ := hf e pre' row he hi hop
  refine ⟨a, mem_saves_of he ?_ ?_ ha, hq⟩
  · simp [hop, savesOf]
  · rw [hcall]
    rfl

/-- **The detector acknowledges nothing that it has not learned or judged.** -/
structure Acknowledged (c : SysConfig K) (service : String) : Prop where
  traffic : ∀ e pre consumer m, e :: pre <:+ c.trace → e.op = .settle consumer true →
    e.tag = .traffic m → m.service = service →
    (⟨bucketKey m.timestamp, m.requestsPerSecond⟩ : Sample K)
      ∈ sampled service metricTraffic true pre
  cpu : ∀ e pre consumer m, e :: pre <:+ c.trace → e.op = .settle consumer true →
    e.tag = .cost m → m.service = service →
    ∃ v, m.cpuCores.getD (some 0) = some v
      ∧ (⟨bucketKey m.timestamp, v⟩ : Sample K) ∈ sampled service metricCpu true pre
  cost : ∀ e pre consumer m, e :: pre <:+ c.trace → e.op = .settle consumer true →
    e.tag = .cost m → m.service = service → ∃ r ∈ judged service true pre, r.message = m

theorem acknowledged (h : (system cfg).Run P w c) (service : String) : Acknowledged c service := by
  -- an acknowledgement comes after everything its handler had to save
  have hkept : ∀ e pre consumer, e :: pre <:+ c.trace → e.op = .settle consumer true →
      Kept e.tag (hist pre e.tid) := by
    intro e pre consumer he hop
    have hmay := mayStore_of_suffix h he
    rw [hop] at hmay
    exact hmay
  have hpre : ∀ {e : SysEvent K} {pre : List (SysEvent K)}, e :: pre <:+ c.trace →
      pre <:+ c.trace := fun he => (List.suffix_cons _ _).trans he
  have htag : ∀ {e e' : SysEvent K} {pre pre' : List (SysEvent K)}, e :: pre <:+ c.trace →
      e' :: pre' <:+ pre → e'.tid = e.tid → e'.tag = e.tag := by
    intro e e' pre pre' he he' hi
    exact h.tag_eq ((he'.trans (hpre he)).subset (List.mem_cons_self ..))
      (he.subset (List.mem_cons_self ..)) hi
  refine ⟨?_, ?_, ?_⟩
  · intro e pre consumer m he hop hm hservice
    subst hservice
    have hs := hkept e pre consumer he hop
    rw [hm] at hs
    obtain ⟨s, hmem, rfl⟩ := mem_saves_of_saved h (hpre he) hs (f := fun e _ => sampleOf e.tag)
      (q := fun s => s = ⟨bucketKey m.timestamp, m.requestsPerSecond⟩)
      fun e' pre' row he' hi hop' => ⟨_, by rw [htag he he' hi, hm]; rfl, rfl⟩
    exact hmem
  · intro e pre consumer m he hop hm hservice
    subst hservice
    have hs := hkept e pre consumer he hop
    rw [hm] at hs
    obtain ⟨s, hmem, v, hv, rfl⟩ := mem_saves_of_saved h (hpre he) hs.1
      (f := fun e _ => sampleOf e.tag)
      (q := fun s => ∃ v, m.cpuCores.getD (some 0) = some v ∧ s = ⟨bucketKey m.timestamp, v⟩)
      fun e' pre' row he' hi hop' => by
        obtain ⟨s, _, hs, _⟩ := learn_of_save h (he'.trans (hpre he)) hop' (by decide)
        refine ⟨s, hs, ?_⟩
        rw [htag he he' hi, hm] at hs
        obtain ⟨v, hv, hsv⟩ := Option.map_eq_some_iff.mp hs
        exact ⟨v, hv, hsv.symm⟩
    exact ⟨v, hv, hmem⟩
  · intro e pre consumer m he hop hm hservice
    subst hservice
    have hs := hkept e pre consumer he hop
    rw [hm] at hs
    exact mem_saves_of_saved h (hpre he) hs.2 (f := readingOf) (q := fun r => r.message = m)
      fun e' pre' row he' hi hop' => by
        obtain ⟨r, _, hr, _, hrtag, _⟩ := judge_of_save h (he'.trans (hpre he)) hop'
        refine ⟨r, hr, ?_⟩
        rw [htag he he' hi, hm] at hrtag
        cases hrtag
        rfl

/-! ## The whole of it -/

/-- The baselines of a service are exact summaries of what was learned. -/
structure ExactSummaries (c : SysConfig K) (service : String) : Prop where
  /-- CPU and traffic: every value saved is learned. -/
  informing : ∀ metric, metric ≠ metricCost →
    ∃ xs, (sampled service metric true c.trace).Sublist xs
      ∧ xs.Sublist (sampled service metric false c.trace) ∧ Summary c.world service metric xs
  /-- Cost: of the readings judged, those that `_should_learn` allowed. -/
  gating : ∃ rs, (judged service true c.trace).Sublist rs
    ∧ rs.Sublist (judged service false c.trace)
    ∧ Summary c.world service metricCost (learned (fun _ => none) rs)
  acknowledged : Acknowledged c service

/-- **Baselines are exact summaries of what was learned**, in every run from nothing. -/
theorem baselines_exact (h : (system cfg).Run P (World.empty K) c) (service : String) :
    ExactSummaries c service where
  informing metric hmetric := sampled_summary h service hmetric
  gating := by
    obtain ⟨rs, hconf, hall, _, hsum⟩ := judged_summary h service
    exact ⟨rs, hconf, hall, hsum⟩
  acknowledged := acknowledged h service

/-- Three readings are learned: their mean is 11, their standard deviation 1. -/
theorem baselines_exact_three :
    ∃ c : SysConfig ℚ, ExactSummaries c Scenario.victim
      ∧ (c.world.baselines Scenario.victim metricCost).map BaselineRow.rollingMean = some 11
      ∧ (c.world.baselines Scenario.victim metricCost).map BaselineRow.rollingStddev = some 1 := by
  obtain ⟨c, hrun, hcheck⟩ := System.exists_run (S := system Scenario.settings)
    (w := World.empty ℚ) (p := fun _ _ => true)
    (l := [Scenario.cost 10] ++ Scenario.calls 0 8 ++ [Scenario.cost 12] ++ Scenario.calls 1 8 ++
      [Scenario.cost 11] ++ Scenario.calls 2 8)
    (q := fun c =>
      (c.world.baselines Scenario.victim metricCost).map BaselineRow.rollingMean = some 11
      && (c.world.baselines Scenario.victim metricCost).map BaselineRow.rollingStddev = some 1)
    (by decide +kernel)
  simp only [Bool.and_eq_true, decide_eq_true_eq] at hcheck
  exact ⟨c, baselines_exact hrun _, hcheck.1, hcheck.2⟩

end HyperTrace.Proof
