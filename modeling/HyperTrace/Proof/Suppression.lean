import HyperTrace.Proof.Summaries

/-!
# Incidents do not poison the baseline

Two counters decide what a qualifying reading may teach. One counts the streak, the
other counts within it and starts again after thirty, when one reading is let
through. They never disagree: the second is the first modulo 31.

So a streak is suppressed in blocks of thirty-one, of which the last reading is
learned, and an incident of at most thirty equal readings leaves the bucket it is
judged by as it was. Its score cannot fade, and it is flagged until it ends.
-/

namespace HyperTrace.Behaviour

open Numeric

variable {K : Type} [Scalar K]

/-- The profile after the readings, which stand newest first. -/
def after (p : Profile K) (rs : List (Reading K)) : Profile K := rs.foldr Reading.judge p

@[simp] theorem after_nil (p : Profile K) : after p [] = p := rfl

@[simp] theorem after_cons (p : Profile K) (r : Reading K) (rs : List (Reading K)) :
    after p (r :: rs) = r.judge (after p rs) := rfl

/-- The persisted counters. -/
def flags (p : Profile K) : FlagState := FlagState.fromDict (p flagStateKey)

namespace Reading

def qualifies (r : Reading K) (p : Profile K) : Bool := Behaviour.qualifies r.message p r.signal

/-- The z-score the reading is judged by. -/
def costZ (r : Reading K) (p : Profile K) : K := scoreIn (BucketStats.fromDict (p r.bucket)) r.value

/-- `qualifies and consecutive >= DWELL_SAMPLES` -/
def shouldFlag (r : Reading K) (p : Profile K) : Bool :=
  r.qualifies p && decide (dwelt r.message p r.signal ≥ dwellSamples)

end Reading

/-- How many of the latest readings qualified, each when its turn came. -/
def streak (p : Profile K) : List (Reading K) → Nat
  | [] => 0
  | r :: rs => if r.qualifies (after p rs) then streak p rs + 1 else 0

/-! ## What one reading does -/

theorem flags_judge (r : Reading K) (p : Profile K) :
    flags (r.judge p) = ⟨(r.admitted p).2, dwelt r.message p r.signal⟩ := by
  simp [flags, Reading.judge]

theorem judge_of_admitted {r : Reading K} {p : Profile K} (h : (r.admitted p).1 = true)
    {key : String} (hkey : key ≠ flagStateKey) :
    r.judge p key = learn p r.bucket r.value key := by
  rw [Reading.judge, put_ne _ _ hkey, if_pos h]

theorem judge_of_suppressed {r : Reading K} {p : Profile K} (h : (r.admitted p).1 = false)
    {key : String} (hkey : key ≠ flagStateKey) : r.judge p key = p key := by
  rw [Reading.judge, put_ne _ _ hkey, if_neg (by simp [h])]

theorem admitted_of_not {r : Reading K} {p : Profile K} (h : r.qualifies p = false) :
    r.admitted p = (true, 0) := by
  have hq : Behaviour.qualifies r.message p r.signal = false := h
  simp [Reading.admitted, shouldLearn, hq]

/-- The thirty-first of a streak is let through, and the count starts again. -/
theorem admitted_of_qualifies {r : Reading K} {p : Profile K} (h : r.qualifies p = true) :
    r.admitted p = if (flags p).consecutive ≥ 30 then (true, 0)
      else (false, (flags p).consecutive + 1) := by
  have hq : Behaviour.qualifies r.message p r.signal = true := h
  simp [Reading.admitted, shouldLearn, hq, flags, maxConsecutiveSuppressed]

theorem dwelt_eq (r : Reading K) (p : Profile K) :
    dwelt r.message p r.signal
      = if r.qualifies p then (flags p).consecutiveQualifying + 1 else 0 := rfl

/-! ## The two counters -/

/-- **One counter is the streak, the other is the streak modulo 31.** -/
theorem flags_after {p : Profile K} (hp : flags p = ⟨0, 0⟩) (rs : List (Reading K)) :
    flags (after p rs) = ⟨streak p rs % 31, streak p rs⟩ := by
  induction rs with
  | nil => exact hp
  | cons r rs ih =>
      rw [after_cons, flags_judge, dwelt_eq, ih, streak]
      cases hq : r.qualifies (after p rs) with
      | false => rw [admitted_of_not hq]; rfl
      | true =>
          rw [admitted_of_qualifies hq, ih]
          by_cases hlast : streak p rs % 31 ≥ 30
          · rw [if_pos hlast]
            simp only [↓reduceIte]
            congr 1
            omega
          · rw [if_neg hlast]
            simp only [↓reduceIte]
            congr 1
            omega

/-- A qualifying reading is learned when it completes a block of thirty-one. -/
theorem admitted_iff {p : Profile K} (hp : flags p = ⟨0, 0⟩) {r : Reading K}
    {rs : List (Reading K)} (hq : r.qualifies (after p rs) = true) :
    (r.admitted (after p rs)).1 = decide (31 ∣ streak p (r :: rs)) := by
  rw [admitted_of_qualifies hq, flags_after hp, streak, if_pos hq]
  by_cases hlast : streak p rs % 31 ≥ 30
  · rw [if_pos hlast, eq_comm, decide_eq_true_eq]
    omega
  · rw [if_neg hlast, eq_comm, decide_eq_false_iff_not]
    omega

/-- **A streak of `L` readings teaches `L / 31` samples.** -/
theorem learned_streak {p : Profile K} (hp : flags p = ⟨0, 0⟩) {rs q : List (Reading K)}
    (hq : streak p (q ++ rs) = q.length) :
    (learned p (q ++ rs)).length = (learned p rs).length + q.length / 31 := by
  induction q with
  | nil => simp
  | cons r q ih =>
      rw [List.cons_append] at hq ⊢
      have hqual : r.qualifies (after p (q ++ rs)) = true := by
        by_contra hnot
        rw [streak, if_neg hnot] at hq
        cases hq
      have hlen : streak p (q ++ rs) = q.length := by
        rw [streak, if_pos hqual] at hq
        simpa using hq
      have hadm := admitted_iff hp hqual
      rw [streak, if_pos hqual, hlen] at hadm
      have hstep : learned p (r :: (q ++ rs))
          = if (r.admitted (after p (q ++ rs))).1 then r.sample :: learned p (q ++ rs)
            else learned p (q ++ rs) := rfl
      rw [hstep, hadm, List.length_cons, Nat.succ_div]
      -- every thirty-first of the streak is let through
      by_cases hdvd : 31 ∣ q.length + 1
      · rw [if_pos (by simpa using hdvd), if_pos hdvd, List.length_cons, ih hlen]
        omega
      · rw [if_neg (by simpa using hdvd), if_neg hdvd, ih hlen]
        omega

/-! ## An incident -/

theorem qualifies_iff {r : Reading K} {p : Profile K} :
    r.qualifies p = true ↔
      (minSamplesForDetection ≤ (BucketStats.fromDict (p r.bucket)).n
        ∧ costZThreshold < (BucketStats.fromDict (p r.bucket)).zScore r.value)
      ∧ ∃ z, r.signal = some z ∧ z < trafficZCeiling := by
  show (decide _ && decide _ && Option.any _ r.signal) = true ↔ _
  rw [Bool.and_eq_true, Bool.and_eq_true, decide_eq_true_eq, decide_eq_true_eq]
  cases r.signal with
  | none => simp
  | some z => simp [Reading.bucket, Reading.value]

/--
**Equal readings on flat traffic change nothing they are judged by.**

The first of them qualifies and none is let through, so each finds the bucket as
the first one found it, and qualifies too.
-/
theorem incident_unlearned {p : Profile K} (hp : flags p = ⟨0, 0⟩) {rs l : List (Reading K)}
    {r₀ : Reading K} (hrs : streak p rs = 0) (hfirst : r₀.qualifies (after p rs) = true)
    (hlen : l.length ≤ 30) (hsame : ∀ r ∈ l, r.bucket = r₀.bucket ∧ r.value = r₀.value)
    (hflat : ∀ r ∈ l, ∃ z, r.signal = some z ∧ z < trafficZCeiling) :
    streak p (l ++ rs) = l.length
      ∧ ∀ key, key ≠ flagStateKey → after p (l ++ rs) key = after p rs key := by
  induction l with
  | nil => exact ⟨hrs, fun _ _ => rfl⟩
  | cons r l ih =>
      have hmem := List.mem_cons_self (a := r) (l := l)
      rw [List.length_cons] at hlen
      obtain ⟨hstreak, hkept⟩ := ih (by omega) (fun r' hr' => hsame r' (List.mem_cons_of_mem _ hr'))
        fun r' hr' => hflat r' (List.mem_cons_of_mem _ hr')
      obtain ⟨hbucket, hvalue⟩ := hsame r hmem
      have hstats := hkept r₀.bucket (bucketKey_ne_flagState _)
      have hqual : r.qualifies (after p (l ++ rs)) = true := by
        rw [qualifies_iff, hbucket, hvalue, hstats]
        exact ⟨(qualifies_iff.mp hfirst).1, hflat r hmem⟩
      have hcount : streak p (r :: (l ++ rs)) = l.length + 1 := by
        rw [streak, if_pos hqual, hstreak]
      refine ⟨hcount, ?_⟩
      intro key hkey
      -- it is at most the thirtieth after the first, so it is suppressed
      have hadm : (r.admitted (after p (l ++ rs))).1 = false := by
        rw [admitted_iff hp hqual, hcount, decide_eq_false_iff_not]
        omega
      rw [List.cons_append, after_cons, judge_of_suppressed hadm hkey, hkept key hkey]

/-- **An incident keeps its score, and is flagged from its third reading on.** -/
theorem incident_flagged {p : Profile K} (hp : flags p = ⟨0, 0⟩) {rs l : List (Reading K)}
    {r₀ : Reading K} (hrs : streak p rs = 0) (hfirst : r₀.qualifies (after p rs) = true)
    (hlen : l.length ≤ 30) (hsame : ∀ r ∈ l, r.bucket = r₀.bucket ∧ r.value = r₀.value)
    (hflat : ∀ r ∈ l, ∃ z, r.signal = some z ∧ z < trafficZCeiling)
    {r : Reading K} {t : List (Reading K)} (ht : r :: t <:+ l) :
    r.costZ (after p (t ++ rs)) = r₀.costZ (after p rs)
      ∧ (r.shouldFlag (after p (t ++ rs)) = true ↔ 2 ≤ t.length) := by
  have hsub : t <:+ l := (List.suffix_cons r t).trans ht
  have hlt : t.length + 1 ≤ l.length := ht.length_le
  have hmem := ht.subset (List.mem_cons_self ..)
  obtain ⟨hstreak, hkept⟩ := incident_unlearned hp hrs hfirst (l := t) (by omega)
    (fun r' hr' => hsame r' (hsub.subset hr')) fun r' hr' => hflat r' (hsub.subset hr')
  obtain ⟨hbucket, hvalue⟩ := hsame r hmem
  have hstats := hkept r₀.bucket (bucketKey_ne_flagState _)
  have hqual : r.qualifies (after p (t ++ rs)) = true := by
    rw [qualifies_iff, hbucket, hvalue, hstats]
    exact ⟨(qualifies_iff.mp hfirst).1, hflat r hmem⟩
  constructor
  · rw [Reading.costZ, hbucket, hvalue, hstats, Reading.costZ]
  · rw [Reading.shouldFlag, hqual, Bool.true_and, decide_eq_true_eq, dwelt_eq, if_pos hqual,
      flags_after hp, hstreak]
    show t.length + 1 ≥ 3 ↔ 2 ≤ t.length
    omega

end HyperTrace.Behaviour

namespace HyperTrace.Proof

open HyperTrace Effect Behaviour

variable {K : Type} [Scalar K] {cfg : Settings}
variable {P : SysConfig K → SysAct K → Prop} {c : SysConfig K}

/-- What the readings of a service, newest first, taught its cost profile since it was `p`. -/
structure Unpoisoned (p : Profile K) (rs : List (Reading K)) : Prop where
  /-- The counters agree, whichever readings have been handled. -/
  counters : ∀ rs', rs' <:+ rs →
    flags (after p rs') = ⟨streak p rs' % 31, streak p rs'⟩
  /-- A reading that does not qualify is learned. -/
  unremarkable : ∀ r rs', r :: rs' <:+ rs → r.qualifies (after p rs') = false →
    ∀ key, key ≠ flagStateKey →
      after p (r :: rs') key = learn (after p rs') r.bucket r.value key
  /-- One that does is learned when it is the 31st, 62nd, 93rd, … of its streak. -/
  admitted : ∀ r rs', r :: rs' <:+ rs → r.qualifies (after p rs') = true →
    31 ∣ streak p (r :: rs') → ∀ key, key ≠ flagStateKey →
      after p (r :: rs') key = learn (after p rs') r.bucket r.value key
  /-- Otherwise it leaves every bucket and `_overall` as they were. -/
  suppressed : ∀ r rs', r :: rs' <:+ rs → r.qualifies (after p rs') = true →
    ¬ 31 ∣ streak p (r :: rs') → ∀ key, key ≠ flagStateKey →
      after p (r :: rs') key = after p rs' key
  /-- So a streak teaches one sample in thirty-one. -/
  streaks : ∀ q rs', q ++ rs' <:+ rs → streak p (q ++ rs') = q.length →
    (learned p (q ++ rs')).length = (learned p rs').length + q.length / 31
  /-- At most thirty equal readings that follow one that did not qualify, the first of them
  qualifying and the traffic flat: the score stays, and the third flags, and those after it. -/
  incidents : ∀ l rs' r₀, l ++ rs' <:+ rs → streak p rs' = 0 →
    r₀.qualifies (after p rs') = true → l.getLast? = some r₀ → l.length ≤ 30 →
    (∀ r ∈ l, r.bucket = r₀.bucket ∧ r.value = r₀.value) →
    (∀ r ∈ l, ∃ z, r.signal = some z ∧ z < 1) →
    ∀ r t, r :: t <:+ l → r.costZ (after p (t ++ rs')) = r₀.costZ (after p rs')
      ∧ (r.shouldFlag (after p (t ++ rs')) = true ↔ 2 ≤ t.length)

theorem unpoisoned {p : Profile K} (hp : flags p = ⟨0, 0⟩) (rs : List (Reading K)) :
    Unpoisoned p rs where
  counters rs' _ := flags_after hp rs'
  unremarkable r rs' _ hq key hkey := by
    rw [after_cons, judge_of_admitted (by rw [admitted_of_not hq]) hkey]
  admitted r rs' _ hq hdvd key hkey := by
    rw [after_cons, judge_of_admitted (by rw [admitted_iff hp hq, decide_eq_true hdvd]) hkey]
  suppressed r rs' _ hq hdvd key hkey := by
    rw [after_cons, judge_of_suppressed (by rw [admitted_iff hp hq, decide_eq_false hdvd]) hkey]
  streaks q rs' _ hq := learned_streak hp hq
  incidents l rs' r₀ _ hrs hfirst _ hlen hsame hflat r t ht :=
    incident_flagged hp hrs hfirst hlen hsame hflat ht

/--
**Incidents do not poison the baseline.**

The persisted cost profile of a service is what its handled readings made of the
empty one, and that is as `Unpoisoned` says.
-/
theorem incidents_unlearned (h : (system cfg).Run P (World.empty K) c) (service : String) :
    ∃ rs, (judged service true c.trace).Sublist rs ∧ rs.Sublist (judged service false c.trace)
      ∧ profileOf c.world service metricCost = after (fun _ => none) rs
      ∧ Unpoisoned (fun _ => none) rs := by
  obtain ⟨rs, hconf, hall, hrs, _⟩ := judged_summary h service
  exact ⟨rs, hconf, hall, hrs, unpoisoned rfl rs⟩

/-- Five readings are learned, and of the three that stand out none. -/
theorem incidents_unlearned_spike :
    ∃ (c : SysConfig ℚ) (rs : List (Reading ℚ)),
      profileOf c.world Scenario.victim metricCost = after (fun _ => none) rs
      ∧ Unpoisoned (fun _ => none) rs
      ∧ flags (profileOf c.world Scenario.victim metricCost) = ⟨3, 3⟩
      ∧ (BucketStats.fromDict (profileOf c.world Scenario.victim metricCost overallKey)).n = 5 := by
  obtain ⟨c, hrun, hcheck⟩ := System.exists_run (S := system Scenario.settings)
    (w := World.empty ℚ) (p := costServed) (l := Scenario.spike)
    (q := fun c => flags (profileOf c.world Scenario.victim metricCost) = ⟨3, 3⟩
      && (BucketStats.fromDict (profileOf c.world Scenario.victim metricCost overallKey)).n = 5)
    (by decide +kernel)
  simp only [Bool.and_eq_true, decide_eq_true_eq] at hcheck
  obtain ⟨rs, _, _, hrs, hun⟩ := incidents_unlearned hrun Scenario.victim
  exact ⟨c, rs, hrs, hun, hcheck.1, hcheck.2⟩

end HyperTrace.Proof
