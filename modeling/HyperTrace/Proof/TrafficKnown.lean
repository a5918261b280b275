import HyperTrace.Proof.Learning

/-!
# Unknown traffic

The traffic handler scores its sample 0 while the bucket is too young to score, and
writes that 0 where a score goes. The cost handler takes it for flat traffic. So a
cost reading that stands out qualifies on traffic nobody has measured, and this is
the only way it can.
-/

namespace HyperTrace.Proof

open HyperTrace Effect Behaviour

variable {K : Type}

def isLoad : Op K → Bool
  | .loadProfile _ _ => true
  | _ => false

/-- The world in which a thread loaded the profile it works on. -/
def loadedIn (tr : List (SysEvent K)) (i : Nat) : Option (World K) :=
  (tr.find? fun e => e.tid = i && isLoad e.op).map Event.before

section

variable [Scalar K]

/-- The bucket of a traffic sample held enough samples when its handler loaded it. -/
def scoredSample (e : SysEvent K) (pre : List (SysEvent K)) : Bool :=
  match e.tag with
  | .traffic m => (loadedIn pre e.tid).any fun w =>
      decide (minSamplesForDetection
        ≤ (BucketStats.fromDict (profileOf w m.service metricTraffic (bucketKey m.timestamp))).n)
  | _ => false

/-- Whether the latest traffic sample of a service was scored, when there is one. -/
def latestScored (service : String) : List (SysEvent K) → Option Bool
  | [] => none
  | e :: tr =>
      match e.op with
      | .setTrafficZ s _ =>
          if s = service then some (scoredSample e tr) else latestScored service tr
      | _ => latestScored service tr

theorem latestScored_cons_ne {service : String} {e : SysEvent K} {tr : List (SysEvent K)}
    (h : ∀ z, e.op ≠ .setTrafficZ service z) :
    latestScored service (e :: tr) = latestScored service tr := by
  simp only [latestScored]
  split
  · rename_i s z hop
    refine if_neg ?_
    intro hs
    exact h z (hs ▸ hop)
  · rfl

variable {cfg : Settings}
variable {P : SysConfig K → SysAct K → Prop} {w : World K} {c : SysConfig K}

/-- A sample is written as its score if its bucket was old enough, and else as 0. -/
theorem signal_of_set (h : (system cfg).Run P w c) {e : SysEvent K} {pre : List (SysEvent K)}
    (he : e :: pre <:+ c.trace) {service : String} {z : K} (hop : e.op = .setTrafficZ service z) :
    scoredSample e pre = false → z = 0 := by
  have hsignals := signals_of_suffix h he hop
  generalize htag : e.tag = tag at hsignals
  generalize hh : hist pre e.tid = t at hsignals
  cases hsignals with
  | @traffic m t z hlearned =>
      obtain ⟨p, now, row, rfl, rfl⟩ := hlearned
      obtain ⟨ld, prel, hfind, hld, _, hldcall, _⟩ :=
        find_of_hist (q := isLoad) (l := [_, _]) hh (by simp [isLoad]) rfl
      have hp : profileOf ld.before m.service metricTraffic = p := by
        obtain ⟨x, hx⟩ := exec_of_call h (hld.trans ((List.suffix_cons e pre).trans he)) hldcall
        exact Except.ok.inj (faulty_ok (congrArg Prod.fst hx)).2
      intro hyoung
      simp only [scoredSample, htag, loadedIn, hfind, Option.map_some, Option.any_some, hp,
        decide_eq_false_iff_not] at hyoung
      exact if_neg hyoung

/-- **What the signal is while the latest sample could not be scored, or there is none.** -/
theorem signal_unknown (h : (system cfg).Run P (World.empty K) c) (service : String) :
    (latestScored service c.trace = none → c.world.trafficZ service = none)
      ∧ (latestScored service c.trace = some false → c.world.trafficZ service = some 0) := by
  -- both together: only a set of this signal matters
  refine h.keeps (I := fun v tr => (latestScored service tr = none → v.trafficZ service = none)
    ∧ (latestScored service tr = some false → v.trafficZ service = some 0))
    ⟨fun _ => rfl, fun h => nomatch h⟩ ?_ ?_ ?_
  · intro c x w' tag p hst ih
    rw [(start_starts hst).1.trafficZ]
    exact ih
  · intro c i x tag o k _ _ _ h' ih
    by_cases hop : ∃ z, o = .setTrafficZ service z
    · obtain ⟨z, rfl⟩ := hop
      have hz := signal_of_set h' (List.suffix_refl _) rfl
      constructor
      · intro hnone
        simp [latestScored] at hnone
      · intro hyoung
        simp only [latestScored, ↓reduceIte, Option.some.injEq] at hyoung
        show put c.world.trafficZ service z service = some 0
        rw [put_self, hz hyoung]
    · push Not at hop
      have hkept : (exec c.world o x).2.trafficZ service = c.world.trafficZ service := by
        rcases (exec_changes c.world o x).trafficZ with hsame | ⟨s, z, rfl, hput⟩
        · rw [hsame]
        · rw [hput, put_ne]
          intro hs
          exact hop z (by rw [hs])
      dsimp only [system]
      rw [latestScored_cons_ne hop, hkept]
      exact ih
  · intro c v ih
    have hsame : (c.world.env v).trafficZ = c.world.trafficZ := by cases v <;> rfl
    dsimp only [system]
    rw [hsame]
    exact ih

/-! ## The claim, and what it takes -/

/-- A cost handler looks up the traffic signal: its reading is judged in that world. -/
def Looks (g : SysEvent K) (m : CostEvent K) : Prop := g.tag = .cost m ∧ isLook g.op = true

/-- Every reading of the service that qualifies finds its latest traffic sample scored. -/
def TrafficKnown (c : SysConfig K) (service : String) : Prop :=
  ∀ g pre m, g :: pre <:+ c.trace → Looks g m → m.service = service →
    qualifiesIn g.before m = true → latestScored service pre = some true

/-- The reading's own bucket is old enough, and its cost stands out of it. -/
def StandsOut (w : World K) (m : CostEvent K) : Prop :=
  minSamplesForDetection ≤ (BucketStats.fromDict (profileOf w m.service metricCost
      (bucketKey m.timestamp))).n
    ∧ costZThreshold < (BucketStats.fromDict (profileOf w m.service metricCost
      (bucketKey m.timestamp))).zScore m.costPerHour

/-- No reading that stands out is judged while the latest traffic sample was not scored. -/
def NeverYoung (c : SysConfig K) (service : String) : Prop :=
  ∀ g pre m, g :: pre <:+ c.trace → Looks g m → m.service = service →
    StandsOut g.before m → latestScored service pre ≠ some false

theorem qualifiesIn_iff {w : World K} {m : CostEvent K} :
    qualifiesIn w m = true
      ↔ StandsOut w m ∧ ∃ z, w.trafficZ m.service = some z ∧ z < trafficZCeiling := by
  show (decide _ && decide _ && Option.any _ (w.trafficZ m.service)) = true ↔ _
  rw [Bool.and_eq_true, Bool.and_eq_true, decide_eq_true_eq, decide_eq_true_eq]
  cases w.trafficZ m.service with
  | none => simp
  | some z => simp [StandsOut]

/-- One reading: it qualifies on unknown traffic exactly when it stands out and the sample is young. -/
theorem known_at_iff (h : (system cfg).Run P (World.empty K) c) {g : SysEvent K}
    {pre : List (SysEvent K)} (hg : g :: pre <:+ c.trace) (m : CostEvent K) :
    (qualifiesIn g.before m = true → latestScored m.service pre = some true)
      ↔ (StandsOut g.before m → latestScored m.service pre ≠ some false) := by
  obtain ⟨c₀, _, _, hr, _, hworld, htr, _⟩ := h.origin hg
  -- without a score the signal is missing, or it is the 0 of a young bucket
  obtain ⟨hnone, hyoung⟩ := signal_unknown hr m.service
  rw [hworld, htr] at hnone hyoung
  rw [qualifiesIn_iff]
  constructor
  · intro hknown hout hfalse
    have hzero : (0 : K) < trafficZCeiling := by
      show (0 : K) < 1
      exact zero_lt_one
    rw [hknown ⟨hout, 0, hyoung hfalse, hzero⟩] at hfalse
    cases hfalse
  · intro hnever hq
    obtain ⟨hout, z, hz, _⟩ := hq
    cases hl : latestScored m.service pre with
    | none =>
        rw [hnone hl] at hz
        cases hz
    | some b =>
        cases b with
        | true => rfl
        | false => exact absurd hl (hnever hout)

/--
**Unknown traffic counts as flat exactly when a reading that stands out meets it.**

In every run: a qualifying reading always finds its latest traffic sample scored if
and only if no reading that stands out is judged on a sample that was not.
-/
theorem traffic_known_iff (h : (system cfg).Run P (World.empty K) c) (service : String) :
    TrafficKnown c service ↔ NeverYoung c service := by
  constructor
  · intro hknown g pre m hg hlooks hservice
    subst hservice
    exact (known_at_iff h hg m).mp (hknown g pre m hg hlooks rfl)
  · intro hnever g pre m hg hlooks hservice
    subst hservice
    exact (known_at_iff h hg m).mpr (hnever g pre m hg hlooks rfl)

end

namespace Scenario

/-- One traffic sample ever, five cost readings, and one that stands out is being judged. -/
def unmeasured : List (SysAct ℚ) :=
  [.start (.traffic ⟨0, victim, 50⟩)] ++ calls 0 5 ++ [cost 10] ++ calls 1 8 ++
    [cost 11] ++ calls 2 8 ++ [cost 10] ++ calls 3 8 ++ [cost 11] ++ calls 4 8 ++
    [cost 10] ++ calls 5 8 ++ [cost 100] ++ calls 6 5

/-- The last thing that happened: a reading was judged on traffic that was not scored. -/
def misjudges (c : SysConfig ℚ) : Bool :=
  match c.trace with
  | ⟨_, .cost m, op, _, before, _⟩ :: pre =>
      isLook op && m.service = victim && qualifiesIn before m
        && latestScored victim pre = some false
  | _ => false

theorem of_misjudges {c : SysConfig ℚ} (h : misjudges c = true) :
    ∃ g pre m, g :: pre <:+ c.trace ∧ Looks g m ∧ m.service = victim
      ∧ qualifiesIn g.before m = true ∧ latestScored victim pre = some false := by
  unfold misjudges at h
  split at h
  · rename_i tid m op res before after pre htr
    simp only [Bool.and_eq_true, decide_eq_true_eq] at h
    obtain ⟨⟨⟨hlook, hservice⟩, hq⟩, hl⟩ := h
    have hlast : ⟨tid, .cost m, op, res, before, after⟩ :: pre <:+ c.trace := by
      rw [htr]
    exact ⟨_, pre, m, hlast, ⟨rfl, hlook⟩, hservice, hq, hl⟩
  · cases h

end Scenario

open Scenario in
/-- Both sides fail together in the run with one traffic sample. -/
theorem traffic_known_iff_unmeasured :
    ∃ c : SysConfig ℚ, (TrafficKnown c victim ↔ NeverYoung c victim)
      ∧ latestScored victim c.trace = some false := by
  obtain ⟨c, hrun, hcheck⟩ := System.exists_run (S := system settings) (w := World.empty ℚ)
    (p := fun _ _ => true) (l := unmeasured)
    (q := fun c => latestScored victim c.trace = some false) (by decide +kernel)
  exact ⟨c, traffic_known_iff hrun victim, by simpa using hcheck⟩

open Scenario in
/-- **A reading qualifies although no traffic sample of its service was ever scored.** -/
theorem traffic_unknown_qualifies :
    ∃ c : SysConfig ℚ, (system settings).Run (fun _ _ => True) (World.empty ℚ) c
      ∧ ¬ TrafficKnown c victim := by
  obtain ⟨c, hrun, hcheck⟩ := System.exists_run (S := system settings) (w := World.empty ℚ)
    (p := fun _ _ => true) (l := unmeasured) (q := misjudges) (by decide +kernel)
  refine ⟨c, hrun.mono fun _ _ _ => trivial, ?_⟩
  intro hknown
  obtain ⟨g, pre, m, hg, hlooks, hservice, hq, hl⟩ := of_misjudges hcheck
  rw [hknown g pre m hg hlooks hservice hq] at hl
  cases hl

end HyperTrace.Proof
