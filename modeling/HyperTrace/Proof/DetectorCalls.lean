import HyperTrace.Proof.Confidence
import HyperTrace.Proof.Transcript

/-!
# What the detector calls

The cost handler makes its calls in one order, and the transcript says how the
reading was judged: by the profile it loaded and the traffic signal it looked up.
It saves that profile with the new count, and where the count has reached the dwell
it inserts an anomaly and publishes it. What is published agrees with what was
inserted.
-/

namespace HyperTrace.Behaviour

open Effect

variable {K : Type} [Scalar K]

/-- What `handleCost` can flag. -/
structure Flags (m : CostEvent K) (f : Flag K) : Prop where
  service : f.service = m.service
  confidence : ∃ n, f.scoreConfidence = Behaviour.confidence f.scores corroborationNone n
  /-- Traffic that explains a spike also keeps it from qualifying. -/
  classification : f.classification = .unclassified

theorem Flags.confidence_allowed {m : CostEvent K} {f : Flag K} (hf : Flags m f) :
    confidenceAllowed f.scoreConfidence = true := by
  obtain ⟨n, hn⟩ := hf.confidence
  rw [hn]
  exact Proof.confidence_allowed ..

/-! ## Judging a reading -/

/-- The reading qualifies, by the profile and the traffic signal it is judged by. -/
def qualifies (m : CostEvent K) (p : Profile K) (tz : Option K) : Bool :=
  let stats := BucketStats.fromDict (p (bucketKey m.timestamp))
  decide (minSamplesForDetection ≤ stats.n) && decide (costZThreshold < stats.zScore m.costPerHour)
    && tz.any fun z => decide (z < trafficZCeiling)

/-- The number of readings in a row that qualified, this one included. -/
def dwelt (m : CostEvent K) (p : Profile K) (tz : Option K) : Nat :=
  if qualifies m p tz then (FlagState.fromDict (p flagStateKey)).consecutiveQualifying + 1 else 0

/-- The z-score of the CPU adds nothing: its threshold is that of the cost. -/
theorem evaluateCondition_fst (m : CostEvent K) (p : Profile K) (tz : Option K) (cpuZ : K) :
    let stats := BucketStats.fromDict (p (bucketKey m.timestamp))
    let mature := decide (stats.n ≥ minSamplesForDetection)
    (evaluateCondition (if mature then stats.zScore m.costPerHour else 0) cpuZ tz mature).1
      = qualifies m p tz := by
  unfold qualifies
  dsimp only
  by_cases hn : (BucketStats.fromDict (p (bucketKey m.timestamp))).n ≥ minSamplesForDetection
  · cases tz with
    | none => simp [evaluateCondition]
    | some z =>
        generalize (BucketStats.fromDict (p (bucketKey m.timestamp))).zScore m.costPerHour = x
        have hmax : (max x cpuZ > resourceZThreshold ∧ x > costZThreshold) ↔ costZThreshold < x :=
          ⟨And.right, fun hx => ⟨lt_of_lt_of_le hx (le_max_left ..), hx⟩⟩
        simp only [evaluateCondition, hn, decide_true, ↓reduceIte, hmax, Bool.true_and,
          Option.any_some]
  · simp [evaluateCondition, hn]

/-- A reading that qualifies is not explained by traffic. -/
theorem evaluateCondition_exclusive {costZ cpuZ : K} {trafficZ : Option K} {mature : Bool}
    (h : (evaluateCondition costZ cpuZ trafficZ mature).1 = true) :
    (evaluateCondition costZ cpuZ trafficZ mature).2 = false := by
  unfold evaluateCondition at h ⊢
  split at h
  · rename_i tz
    simp only [Bool.and_eq_true, decide_eq_true_eq] at h
    have h1 : tz < 1 := h.2
    have h3 : ¬ tz ≥ trafficZComovement := not_le.mpr (h1.trans (by norm_num [trafficZComovement]))
    simp [h3]
  · cases h

/-! ## Scoring against a baseline -/

/-- How `scoreAndLearn`, begun after `h`, can end. -/
inductive Scored (may : History K → Op K → Prop) (h : History K) (service metric : String)
    (value : Option K) (bucket : String) : History K → Except Err (K × Nat) → Prop where
  | done {p : Profile K} {now : Time} {row : BaselineRow K} {v : K} {n : Nat} : value = some v →
      Scored may h service metric value bucket
        (⟨.saveProfile service metric row, .ok ()⟩ :: ⟨.now, .ok now⟩ ::
          ⟨.loadProfile service metric, .ok p⟩ :: h)
        (.ok (scoreIn (BucketStats.fromDict (p bucket)) v, n))
  | null {t : History K} : value = none →
      Scored may h service metric value bucket t (.error .typeError)
  | raised {t : History K} {o : Op K} {e : Err} : may t o →
      Scored may h service metric value bucket (⟨o, .error e⟩ :: t) (.error e)

/-- If it returns a score, it has read the profile and saved it. -/
theorem Scored.of_ok {may : History K → Op K → Prop} {h t : History K} {service metric : String}
    {value : Option K} {bucket : String} {x : K × Nat}
    (hs : Scored may h service metric value bucket t (.ok x)) :
    ∃ p now row v, value = some v ∧ x.1 = scoreIn (BucketStats.fromDict (p bucket)) v
      ∧ t = ⟨.saveProfile service metric row, .ok ()⟩ :: ⟨.now, .ok now⟩ ::
        ⟨.loadProfile service metric, .ok p⟩ :: h := by
  obtain ⟨z, n⟩ := x
  cases hs with
  | done hv => exact ⟨_, _, _, _, hv, rfl, rfl⟩

section Rules

variable {may : History K → Op K → Prop} {h : History K} {service metric : String}

theorem saveProfile_obeys {profile : Profile K} {Q : History K → Except Err Unit → Prop}
    (hnow : may h .now)
    (hsave : ∀ now row, row.profile = profile →
      may (⟨.now, .ok now⟩ :: h) (.saveProfile service metric row)
        ∧ ∀ r, Q (⟨.saveProfile service metric row, r⟩ :: ⟨.now, .ok now⟩ :: h) r) :
    (saveProfile service metric profile).Obeys (anyAnswer may) Q h := by
  refine obeys_local rfl hnow fun now => ?_
  exact obeys_last (hsave now _ rfl).1 (hsave now _ rfl).2

theorem scoreAndLearn_obeys (hload : may h (.loadProfile service metric))
    (hnow : ∀ p, may (⟨.loadProfile service metric, .ok p⟩ :: h) .now)
    (hsave : ∀ p now row, may (⟨.now, .ok now⟩ :: ⟨.loadProfile service metric, .ok p⟩ :: h)
      (.saveProfile service metric row)) (value : Option K) (bucket : String) :
    (scoreAndLearn service metric value bucket).Obeys (anyAnswer may)
      (Scored may h service metric value bucket) h := by
  refine obeys_call hload (fun p => ?_) fun e => .raised hload
  cases value with
  -- a null cannot be scored, and nothing is saved
  | none => exact .null rfl
  | some value =>
      simp only [asNumber, Prog.pure_eq, Prog.bind_eq, Prog.ret_bind]
      refine Prog.Obeys.bind (R := fun t r => ∃ now row,
        may (⟨.now, .ok now⟩ :: ⟨.loadProfile service metric, .ok p⟩ :: h)
            (.saveProfile service metric row)
          ∧ t = ⟨.saveProfile service metric row, r⟩ :: ⟨.now, .ok now⟩ ::
            ⟨.loadProfile service metric, .ok p⟩ :: h) ?_ ?_ ?_
      · exact saveProfile_obeys (hnow p) fun now row _ =>
          ⟨hsave p now row, fun r => ⟨now, row, hsave p now row, rfl⟩⟩
      · intro t a hx
        obtain ⟨now, row, _, ht⟩ := hx
        rw [ht]
        exact .done rfl
      · intro t e hx
        obtain ⟨now, row, hmay, ht⟩ := hx
        rw [ht]
        exact .raised hmay

end Rules

/-! ## Traffic -/

/-- What `handleTraffic` may call after which transcript. -/
inductive MayTraffic (m : TrafficSample K) : History K → Op K → Prop where
  | load (h : History K) : MayTraffic m h (.loadProfile m.service metricTraffic)
  | now (h : History K) : MayTraffic m h .now
  | save (h : History K) (row : BaselineRow K) :
      MayTraffic m h (.saveProfile m.service metricTraffic row)
  | set {h : History K} {p : Profile K} :
      (⟨.loadProfile m.service metricTraffic, .ok p⟩ : SysCall K) ∈ h →
      MayTraffic m h (.setTrafficZ m.service
        (scoreIn (BucketStats.fromDict (p (bucketKey m.timestamp))) m.requestsPerSecond))

/-- **`handleTraffic` makes only the calls it may.** -/
theorem handleTraffic_obeys (m : TrafficSample K) :
    (handleTraffic m).Obeys (anyAnswer (MayTraffic m)) (fun _ _ => True) [] := by
  refine Prog.Obeys.bind (scoreAndLearn_obeys (.load _) (fun p => .now _)
    (fun p now row => .save _ row) _ _) ?_ fun t e _ => trivial
  intro t h hs
  obtain ⟨z, n⟩ := h
  generalize t ++ [] = t' at hs
  cases hs with
  | done hv =>
      cases hv
      refine obeys_last (.set ?_) fun r => trivial
      exact List.mem_cons_of_mem _ (List.mem_cons_of_mem _ (List.mem_cons_self ..))

/-! ## Cost -/

/-- The calls made before the reading is judged. -/
def isEarly (m : CostEvent K) : Op K → Bool
  | .now => true
  | .loadProfile _ _ => true
  | .saveProfile service metric _ => service = m.service && metric = metricCpu
  | _ => false

def Early (m : CostEvent K) (h : History K) : Prop := ∀ c ∈ h, isEarly m c.op = true

omit [Scalar K] in
theorem Early.nil {m : CostEvent K} : Early m [] := by
  intro c hc
  cases hc

omit [Scalar K] in
theorem Early.cons {m : CostEvent K} {c : SysCall K} {h : History K} (hc : isEarly m c.op = true)
    (hh : Early m h) : Early m (c :: h) := by
  intro d hd
  rcases List.mem_cons.mp hd with rfl | hd
  · exact hc
  · exact hh d hd

/-- The profile has been loaded and the traffic signal looked up. -/
def looked (m : CostEvent K) (p : Profile K) (tz : Option K) (h : History K) : History K :=
  ⟨.getTrafficZ m.service, .ok tz⟩ :: ⟨.loadProfile m.service metricCost, .ok p⟩ :: h

/-- The row carries the new count. -/
def Counts (m : CostEvent K) (p : Profile K) (tz : Option K) (row : BaselineRow K) : Prop :=
  ∃ suppressed, row.profile flagStateKey = some (.flags ⟨suppressed, dwelt m p tz⟩)

/-- The reading has been judged and the count saved; it is to be flagged or not. -/
inductive Judged (m : CostEvent K) : History K → Bool → Prop where
  | mk {h : History K} {p : Profile K} {tz : Option K} {row : BaselineRow K} {now : Time} :
      Early m h → Counts m p tz row →
      Judged m (⟨.saveProfile m.service metricCost row, .ok ()⟩ :: ⟨.now, .ok now⟩ ::
        looked m p tz h) (decide (dwellSamples ≤ dwelt m p tz))

/-- The transcript from which a flag is published. -/
def inserted (f : Flag K) (id : Uuid) (now : Time) (h : History K) : History K :=
  ⟨.insertAnomaly (f.row id now), .ok ()⟩ :: ⟨.uuid4, .ok id⟩ :: ⟨.now, .ok now⟩ :: h

/-- What `handleCost` may call after which transcript. -/
inductive May (m : CostEvent K) : History K → Op K → Prop where
  | early {h : History K} {o : Op K} : Early m h → isEarly m o = true → May m h o
  | look {h : History K} {p : Profile K} : Early m h →
      May m (⟨.loadProfile m.service metricCost, .ok p⟩ :: h) (.getTrafficZ m.service)
  | wait {h : History K} {p : Profile K} {tz : Option K} : Early m h →
      May m (looked m p tz h) .now
  | save {h : History K} {p : Profile K} {tz : Option K} {row : BaselineRow K} {now : Time} :
      Early m h → Counts m p tz row →
      May m (⟨.now, .ok now⟩ :: looked m p tz h) (.saveProfile m.service metricCost row)
  | stamp {h : History K} : Judged m h true → May m h .now
  | draw {h : History K} {now : Time} : Judged m h true → May m (⟨.now, .ok now⟩ :: h) .uuid4
  | insert {h : History K} {f : Flag K} {id : Uuid} {now : Time} : Judged m h true → Flags m f →
      May m (⟨.uuid4, .ok id⟩ :: ⟨.now, .ok now⟩ :: h) (.insertAnomaly (f.row id now))
  | publish {h t : History K} {f : Flag K} {id : Uuid} {now : Time} : Judged m h true →
      Flags m f → Attempts (.anomaly (f.message id now)) (inserted f id now h) t →
      May m t (.basicPublish (.anomaly (f.message id now)))

/-- With which transcript `handleCost` ends, and how. -/
inductive Ends (m : CostEvent K) : History K → Except Err Unit → Prop where
  /-- Arithmetic on `None`. -/
  | null {t : History K} : m.cpuCores = some none → Ends m t (.error .typeError)
  | raised {t : History K} {o : Op K} {e : Err} : May m t o → Ends m (⟨o, .error e⟩ :: t) (.error e)
  | passed {t : History K} : Judged m t false → Ends m t (.ok ())
  | flagged {h t : History K} {f : Flag K} {id : Uuid} {now : Time} {r : Except Err Unit} :
      Judged m h true → Flags m f → Published (.anomaly (f.message id now)) (inserted f id now h) t r →
      Ends m t r

theorem flagAnomaly_obeys {m : CostEvent K} {f : Flag K} {h : History K} (hj : Judged m h true)
    (hf : Flags m f) : (flagAnomaly f).Obeys (anyAnswer (May m)) (Ends m) h := by
  unfold flagAnomaly
  refine obeys_local rfl (.stamp hj) fun now => ?_
  refine obeys_local rfl (.draw hj) fun id => ?_
  refine obeys_call (.insert hj hf) (fun _ => ?_) fun e => .raised (.insert hj hf)
  exact (publish_obeys fun t ht => .publish hj hf ht).mono fun t r hp => .flagged hj hf hp

/-- **`handleCost` makes only the calls it may, and ends as it should.** -/
theorem handleCost_obeys (m : CostEvent K) :
    (handleCost m).Obeys (anyAnswer (May m)) (Ends m) [] := by
  have hload : ∀ metric, isEarly m (.loadProfile m.service metric) = true := fun _ => rfl
  have hcpu : ∀ row, isEarly m (.saveProfile m.service metricCpu row) = true := by
    intro row
    simp [isEarly]
  refine Prog.Obeys.bind (scoreAndLearn_obeys (.early .nil rfl) (fun p => .early (.cons rfl .nil) rfl)
    (fun p now row => .early (.cons rfl (.cons rfl .nil)) (hcpu row)) _ _) ?_ ?_
  -- the CPU half is done: what follows judges the cost
  · intro t hx hs
    obtain ⟨cpuZ, n⟩ := hx
    generalize t ++ [] = t' at hs
    have hearly : Early m t' := by
      cases hs with
      | done => exact .cons (hcpu _) (.cons rfl (.cons rfl .nil))
    refine obeys_call (.early hearly rfl) (fun p => ?_) fun e => .raised (.early hearly rfl)
    refine obeys_local rfl (.look hearly) fun tz => ?_
    have hqual := evaluateCondition_fst m p tz cpuZ
    dsimp only at hqual ⊢
    rw [hqual]
    -- the cost profile is saved before anything is flagged
    refine Prog.Obeys.bind (R := fun t r => ∃ now row, Counts m p tz row
      ∧ t = ⟨.saveProfile m.service metricCost row, r⟩ :: ⟨.now, .ok now⟩ :: looked m p tz t')
      ?_ ?_ ?_
    · refine saveProfile_obeys (.wait hearly) fun now row hrow => ?_
      have hcounts : Counts m p tz row := ⟨_, by rw [hrow, put_self]; rfl⟩
      exact ⟨.save hearly hcounts, fun r => ⟨now, row, hcounts, rfl⟩⟩
    · intro t'' _ hx
      obtain ⟨now, row, hcounts, ht⟩ := hx
      rw [ht]
      have hjudged := @Judged.mk K _ m t' p tz row now hearly hcounts
      -- the count that is saved is the one the dwell is judged by
      have hflag : (qualifies m p tz && decide ((if qualifies m p tz = true then
          (FlagState.fromDict (p flagStateKey)).consecutiveQualifying + 1 else 0) ≥ dwellSamples))
          = decide (dwellSamples ≤ dwelt m p tz) := by
        unfold dwelt
        cases qualifies m p tz <;> simp [dwellSamples]
      rw [hflag]
      refine .ite (fun h => ?_) fun h => ?_
      · rw [h] at hjudged
        refine flagAnomaly_obeys hjudged ⟨rfl, ⟨_, rfl⟩, if_neg (Bool.eq_false_iff.mp ?_)⟩
        refine evaluateCondition_exclusive (hqual.trans ?_)
        rw [← hflag, Bool.and_eq_true] at h
        exact h.1
      · rw [Bool.eq_false_iff.mpr h] at hjudged
        exact .passed hjudged
    · intro t'' e hx
      obtain ⟨now, row, hcounts, ht⟩ := hx
      rw [ht]
      exact .raised (.save hearly hcounts)
  · intro t e hs
    generalize t ++ [] = t' at hs
    cases hs with
    | null hv =>
        refine .null ?_
        cases hcores : m.cpuCores with
        | none => rw [hcores] at hv; cases hv
        | some x => rw [hcores] at hv; exact congrArg some hv
    | raised hmay => exact .raised hmay

end HyperTrace.Behaviour
