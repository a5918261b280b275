import HyperTrace.Proof.Dwell

/-!
# What the detector learns

The two handlers of the detector keep one profile per service and metric. Each save
replaces the profile by a function of the one it was loaded from: one value learned
into one bucket, or one cost reading judged. Nobody else saves that profile between
the load and the save, because a consumer handles one delivery at a time. So the
persisted profile is the initial one with these functions applied in the order of
the saves, however the calls of all the handlers are interleaved.

A save that raised may or may not have taken effect, and the trace does not say
which. What is known is that the confirmed ones did, and that nothing else did.
-/

namespace HyperTrace.Behaviour

open Effect

variable {K : Type} [Scalar K]

/-! ## What a save writes -/

/-- One value learned: into its bucket, and into the overall entry. -/
def learn (p : Profile K) (bucket : String) (value : K) : Profile K :=
  put (put p bucket (.stats ((BucketStats.fromDict (p bucket)).update value))) overallKey
    (.stats ((BucketStats.fromDict (p overallKey)).update value))

/-- A value to learn, and the bucket it goes into. -/
structure Sample (K : Type) where
  bucket : String
  value : K

def Sample.learn (s : Sample K) (p : Profile K) : Profile K := Behaviour.learn p s.bucket s.value

/-- A cost reading, and the traffic signal it is judged by. -/
structure Reading (K : Type) where
  message : CostEvent K
  signal : Option K

namespace Reading

def bucket (r : Reading K) : String := bucketKey r.message.timestamp

def value (r : Reading K) : K := r.message.costPerHour

/-- Whether the reading may update the baseline, and the new suppression counter. -/
def admitted (r : Reading K) (p : Profile K) : Bool × Nat :=
  shouldLearn (qualifies r.message p r.signal) (FlagState.fromDict (p flagStateKey)).consecutive

/-- The profile after the reading. -/
def judge (r : Reading K) (p : Profile K) : Profile K :=
  put (if (r.admitted p).1 then learn p r.bucket r.value else p) flagStateKey
    (.flags ⟨(r.admitted p).2, dwelt r.message p r.signal⟩)

/-- The same, as the handler comes to it. -/
theorem judge_eq (r : Reading K) (p : Profile K) :
    r.judge p = put
      (if (r.admitted p).1 then
        put (put p r.bucket (.stats (if (r.admitted p).1
            then (BucketStats.fromDict (p r.bucket)).update r.value
            else BucketStats.fromDict (p r.bucket)))) overallKey
          (.stats ((BucketStats.fromDict (p overallKey)).update r.value))
      else p) flagStateKey (.flags ⟨(r.admitted p).2, dwelt r.message p r.signal⟩) := by
  unfold judge learn
  cases (r.admitted p).1 <;> rfl

end Reading

/-- The row `_save_profile` writes. -/
def baselineRow (profile : Profile K) (now : Time) : BaselineRow K :=
  let overall := BucketStats.fromDict (profile overallKey)
  ⟨overall.mean, overall.stddev, profile, now⟩

/-- A save, by what its thread has called before. -/
inductive Stores : Tag K → History K → String → String → BaselineRow K → Prop where
  | traffic {m : TrafficSample K} {p : Profile K} {now : Time} {t : History K} :
      Stores (.traffic m) (⟨.now, .ok now⟩ :: ⟨.loadProfile m.service metricTraffic, .ok p⟩ :: t)
        m.service metricTraffic
        (baselineRow (learn p (bucketKey m.timestamp) m.requestsPerSecond) now)
  | cpu {m : CostEvent K} {v : K} {p : Profile K} {now : Time} {t : History K} :
      m.cpuCores.getD (some 0) = some v →
      Stores (.cost m) (⟨.now, .ok now⟩ :: ⟨.loadProfile m.service metricCpu, .ok p⟩ :: t)
        m.service metricCpu (baselineRow (learn p (bucketKey m.timestamp) v) now)
  | cost {m : CostEvent K} {p : Profile K} {tz : Option K} {now : Time} {t : History K} :
      Stores (.cost m) (⟨.now, .ok now⟩ :: looked m p tz t) m.service metricCost
        (baselineRow ((Reading.mk m tz).judge p) now)

def isSave : Op K → Bool
  | .saveProfile _ _ _ => true
  | _ => false

/-- A save of the metric was confirmed. -/
def Saved (service metric : String) (t : History K) : Prop :=
  ∃ row, (⟨.saveProfile service metric row, .ok ()⟩ : SysCall K) ∈ t

/-- What has been saved when a delivery of the detector is acknowledged. -/
def Kept : Tag K → History K → Prop
  | .traffic m, t => Saved m.service metricTraffic t
  | .cost m, t => Saved m.service metricCpu t ∧ Saved m.service metricCost t
  | _, _ => True

/-- A value was scored against the profile its thread loaded, and learned. -/
def Learned (service metric bucket : String) (v : K) (h t : History K) (z : K) : Prop :=
  ∃ p now row, t = ⟨.saveProfile service metric row, .ok ()⟩ :: ⟨.now, .ok now⟩ ::
      ⟨.loadProfile service metric, .ok p⟩ :: h
    ∧ z = scoreIn (BucketStats.fromDict (p bucket)) v

/-- The traffic signal is the score of the sample just learned. -/
inductive Signals : Tag K → History K → String → K → Prop where
  | traffic {m : TrafficSample K} {t : History K} {z : K} :
      Learned m.service metricTraffic (bucketKey m.timestamp) m.requestsPerSecond [] t z →
      Signals (.traffic m) t m.service z

/--
A save must be the one that is due, a traffic signal the score of its sample, and an
acknowledgement must come after both.
-/
def MayStore (tag : Tag K) (t : History K) : Op K → Prop
  | .saveProfile service metric row => Stores tag t service metric row
  | .setTrafficZ service z => Signals tag t service z
  | .settle _ true => Kept tag t
  | _ => True

omit [Scalar K] in
theorem Saved.cons {service metric : String} {t : History K} (h : Saved service metric t)
    (c : SysCall K) : Saved service metric (c :: t) := by
  obtain ⟨row, hrow⟩ := h
  exact ⟨row, List.mem_cons_of_mem c hrow⟩

omit [Scalar K] in
theorem Saved.append {service metric : String} {h : History K} (hs : Saved service metric h)
    (t : History K) : Saved service metric (t ++ h) := by
  obtain ⟨row, hrow⟩ := hs
  exact ⟨row, List.mem_append_right t hrow⟩

section Rules

variable {tag : Tag K} {h : History K} {service metric : String}

/-- A save that returns was confirmed. -/
def saving (service metric : String) (h : History K) : History K → Except Err Unit → Prop :=
  Prog.post (fun t _ => ∃ now row, t = ⟨.saveProfile service metric row, .ok ()⟩ ::
    ⟨.now, .ok now⟩ :: h) fun _ _ => True

/-- A scoring that returns has learned a value. -/
def learning (service metric : String) (value : Option K) (bucket : String) (h : History K) :
    History K → Except Err (K × Nat) → Prop :=
  Prog.post (fun t zn => ∃ v, value = some v ∧ Learned service metric bucket v h t zn.1)
    fun _ _ => True

omit [Scalar K] in
theorem Learned.saved [Scalar K] {bucket : String} {v z : K} {t : History K}
    (hl : Learned service metric bucket v h t z) : Saved service metric t := by
  obtain ⟨p, now, row, rfl, _⟩ := hl
  exact ⟨row, List.mem_cons_self ..⟩

theorem saveProfile_stores {profile : Profile K}
    (hsave : ∀ now, Stores tag (⟨.now, .ok now⟩ :: h) service metric (baselineRow profile now)) :
    (saveProfile service metric profile).Obeys (anyAnswer (MayStore tag))
      (saving service metric h) h := by
  refine obeys_local rfl trivial fun now => ?_
  refine obeys_last (hsave now) fun r => ?_
  cases r with
  | ok a => exact ⟨now, _, rfl⟩
  | error e => exact trivial

theorem scoreAndLearn_stores {value : Option K} {bucket : String}
    (hsave : ∀ p now v, value = some v →
      Stores tag (⟨.now, .ok now⟩ :: ⟨.loadProfile service metric, .ok p⟩ :: h) service metric
        (baselineRow (learn p bucket v) now)) :
    (scoreAndLearn service metric value bucket).Obeys (anyAnswer (MayStore tag))
      (learning service metric value bucket h) h := by
  refine obeys_call trivial (fun p => ?_) fun e => trivial
  cases value with
  | none => exact trivial
  | some v =>
      simp only [asNumber, Prog.pure_eq, Prog.bind_eq, Prog.ret_bind]
      refine Prog.Obeys.bind (saveProfile_stores fun now => hsave p now v rfl) ?_ ?_
      · intro t a hsaved
        obtain ⟨now, row, ht⟩ := hsaved
        exact ⟨v, rfl, p, now, row, ht, rfl⟩
      · intro t e _
        exact trivial

theorem flagAnomaly_stores {f : Flag K} :
    (flagAnomaly f).Obeys (anyAnswer (MayStore tag)) (fun _ _ => True) h := by
  refine obeys_local rfl trivial fun now => ?_
  refine obeys_local rfl trivial fun id => ?_
  refine obeys_call trivial (fun _ => ?_) fun e => trivial
  exact (publish_obeys fun t _ => trivial).mono fun _ _ _ => trivial

end Rules

/-- How the handlers of the detector end: with everything saved, or with an exception. -/
def keeping (tag : Tag K) : History K → Except Err Unit → Prop :=
  Prog.post (fun t _ => Kept tag t) fun _ _ => True

theorem handleTraffic_stores (m : TrafficSample K) :
    (handleTraffic m).Obeys (anyAnswer (MayStore (.traffic m))) (keeping (.traffic m)) [] := by
  refine Prog.Obeys.bind (scoreAndLearn_stores fun p now v hv => ?_) ?_ fun _ _ _ => trivial
  · cases hv
    exact .traffic
  · intro t scored hlearned
    obtain ⟨v, hv, hl⟩ := hlearned
    cases hv
    refine obeys_last (.traffic hl) fun r => ?_
    cases r with
    | ok a => exact hl.saved.cons _
    | error e => exact trivial

theorem handleCost_stores (m : CostEvent K) :
    (handleCost m).Obeys (anyAnswer (MayStore (.cost m))) (keeping (.cost m)) [] := by
  refine Prog.Obeys.bind (scoreAndLearn_stores fun p now v hv => .cpu hv) ?_ fun _ _ _ => trivial
  intro t scored hlearned
  obtain ⟨v, _, hl⟩ := hlearned
  have hcpu := hl.saved
  obtain ⟨cpuZ, n⟩ := scored
  refine obeys_call trivial (fun (p : Profile K) => ?_) fun e => trivial
  refine obeys_local rfl trivial fun (tz : Option K) => ?_
  have hqual := evaluateCondition_fst m p tz cpuZ
  dsimp only at hqual ⊢
  rw [hqual]
  refine Prog.Obeys.bind (saveProfile_stores fun now => ?_) ?_ fun _ _ _ => trivial
  · have hsave := @Stores.cost K _ m p tz now (t ++ [])
    rw [Reading.judge_eq] at hsave
    exact hsave
  -- from here on both saves have been made
  · intro t' a hcost
    obtain ⟨now, row, ht'⟩ := hcost
    have hkept : Kept (.cost m) (t' ++ (⟨.getTrafficZ m.service, .ok tz⟩ ::
        ⟨.loadProfile m.service metricCost, .ok p⟩ :: (t ++ []))) :=
      ⟨((Saved.cons hcpu _).cons _).append t', row, by rw [ht']; exact List.mem_cons_self ..⟩
    refine .ite (fun _ => ?_) fun _ => hkept
    refine flagAnomaly_stores.mono fun t'' r _ => ?_
    cases r with
    | ok a => exact ⟨hkept.1.append t'', hkept.2.append t''⟩
    | error e => exact trivial

end HyperTrace.Behaviour

namespace HyperTrace.Proof

open HyperTrace Effect Behaviour

variable {K : Type}

section

variable [Scalar K] {cfg : Settings}
variable {P : SysConfig K → SysAct K → Prop} {w : World K} {c : SysConfig K}

/-! ## Every save is the one that is due -/

theorem program_stores (cfg : Settings) (tag : Tag K) :
    (program cfg tag).Obeys (anyAnswer (MayStore tag)) (fun _ _ => True) [] := by
  -- who is neither a traffic nor a cost handler stores nothing
  have hothers : (∀ m, tag ≠ .traffic m) → (∀ m, tag ≠ .cost m) →
      (program cfg tag).Obeys (anyAnswer (MayStore tag)) (fun _ _ => True) [] := by
    intro htraffic hcost
    have hmay : ∀ t o, Calls cfg tag t o → MayStore tag t o := by
      intro t o ho
      cases o with
      | saveProfile service metric row =>
          rcases detecting ho rfl with ⟨m, htag, _⟩ | ⟨m, htag, _⟩
          · exact absurd htag (htraffic m)
          · exact absurd htag (hcost m)
      | setTrafficZ service z =>
          rcases detecting ho rfl with ⟨m, htag, _⟩ | ⟨m, htag, _⟩
          · exact absurd htag (htraffic m)
          · exact absurd htag (hcost m)
      | settle consumer ack =>
          cases ack with
          | false => exact trivial
          | true =>
              cases tag with
              | traffic m => exact absurd rfl (htraffic m)
              | cost m => exact absurd rfl (hcost m)
              | _ => exact trivial
      | _ => exact trivial
    have hob : (program cfg tag).Obeys (anyAnswer (MayStore tag)) (Ends cfg tag) [] :=
      (program_obeys cfg tag).weaken hmay fun _ _ _ hg => hg
    exact hob.mono fun _ _ _ => trivial
  have hsettle : ∀ {consumer : Consumer} (t : History K) (r : Except Err Unit), keeping tag t r →
      MayStore tag t (.settle consumer (acked r)) := by
    intro consumer t r hr
    cases r with
    | ok a => exact hr
    | error e => exact trivial
  cases tag with
  | traffic m =>
      exact (callback_obeys (handleTraffic_stores m) hsettle).mono fun _ _ _ => trivial
  | cost m =>
      exact (callback_obeys (handleCost_stores m) hsettle).mono fun _ _ _ => trivial
  | _ => exact hothers (by intro m htag; cases htag) (by intro m htag; cases htag)

theorem mayStore_of_suffix (h : (system cfg).Run P w c) {e : SysEvent K} {pre : List (SysEvent K)}
    (he : e :: pre <:+ c.trace) : MayStore e.tag (hist pre e.tid) e.op := by
  obtain ⟨c₀, x, k, hr, _, _, htr, ht, _⟩ := h.origin he
  have hob := System.Run.obeys (D := fun tag => anyAnswer (MayStore tag))
    (Q := fun _ _ _ => True) (S := system cfg) ?_ ?_ hr ht
  · have hmay : MayStore e.tag (hist c₀.trace e.tid) e.op := hob.1
    rwa [htr] at hmay
  · intro c x w' tag p _ _ hs
    obtain ⟨_, rfl⟩ := start_starts hs
    exact program_stores cfg tag
  · intro c i x tag o k _ _ _ _ ho
    obtain ⟨a, ha⟩ := exec_local (w := c.world) (x := x) ho
    dsimp only [system]
    rw [ha]
    rfl

theorem stores_of_suffix (h : (system cfg).Run P w c) {e : SysEvent K} {pre : List (SysEvent K)}
    (he : e :: pre <:+ c.trace) {service metric : String} {row : BaselineRow K}
    (hop : e.op = .saveProfile service metric row) :
    Stores e.tag (hist pre e.tid) service metric row := by
  have hmay := mayStore_of_suffix h he
  rw [hop] at hmay
  exact hmay

theorem signals_of_suffix (h : (system cfg).Run P w c) {e : SysEvent K} {pre : List (SysEvent K)}
    (he : e :: pre <:+ c.trace) {service : String} {z : K} (hop : e.op = .setTrafficZ service z) :
    Signals e.tag (hist pre e.tid) service z := by
  have hmay := mayStore_of_suffix h he
  rw [hop] at hmay
  exact hmay

/-! ## Between load and save -/

/-- The consumer whose handlers save a metric. -/
def keeper (metric : String) : Consumer :=
  if metric = metricTraffic then .behaviourTraffic else .behaviourCost

theorem keeper_of_stores {tag : Tag K} {t : History K} {service metric : String}
    {row : BaselineRow K} (h : Stores tag t service metric row) :
    consumerOf tag = some (keeper metric) := by
  cases h with
  | traffic => rfl
  | cpu => rfl
  | cost => rfl

theorem unsettled_of_save (h : (system cfg).Run P w c) {e : SysEvent K} {pre : List (SysEvent K)}
    (he : e :: pre <:+ c.trace) {service metric : String} {row : BaselineRow K}
    (hop : e.op = .saveProfile service metric row) : Unsettled (hist pre e.tid) := by
  have hcalls := calls_of_suffix h he
  have hstores := stores_of_suffix h he hop
  rw [hop] at hcalls
  generalize e.tag = tag at hcalls hstores
  generalize hist pre e.tid = t at hcalls hstores ⊢
  cases hstores with
  | traffic =>
      cases hcalls with
      | handle _ hu => exact hu
  | cpu => exact unsettled_of_cost hcalls
  | cost => exact unsettled_of_cost hcalls

/-- What a handler has loaded is still the persisted profile when it saves. -/
theorem loaded_kept (h : (system cfg).Run P w c) {e : SysEvent K} {pre : List (SysEvent K)}
    (he : e :: pre <:+ c.trace) {service metric : String} {row : BaselineRow K}
    (hop : e.op = .saveProfile service metric row) {l t : History K} {p : Profile K}
    (hload : hist pre e.tid = l ++ ⟨.loadProfile service metric, .ok p⟩ :: t)
    (hl : ∀ call ∈ l, isSave call.op = false) :
    profileOf e.before service metric = p := by
  refine kept_since h he (keeper_of_stores (stores_of_suffix h he hop))
    (unsettled_of_save h he hop) ?_ hload ?_
  · intro e' pre' row' he' hop'
    exact ⟨keeper_of_stores (stores_of_suffix h he' hop'), unsettled_of_save h he' hop'⟩
  · intro call hcall row' hop'
    have hread := hl call hcall
    rw [hop'] at hread
    cases hread

/-! ## What is learned in a run -/

end

/-- The value a handler learns whatever comes of its message: the traffic, or the CPU. -/
def sampleOf [Zero K] : Tag K → Option (Sample K)
  | .traffic m => some ⟨bucketKey m.timestamp, m.requestsPerSecond⟩
  | .cost m => (m.cpuCores.getD (some 0)).map fun v => ⟨bucketKey m.timestamp, v⟩
  | _ => none

/-- The cost reading a thread has judged, with the traffic signal it looked up. -/
def readingOf (e : SysEvent K) (pre : List (SysEvent K)) : Option (Reading K) :=
  match e.tag with
  | .cost m => some ⟨m, (lookedIn pre e.tid).bind fun w => w.trafficZ m.service⟩
  | _ => none

/--
What `f` reads off the saves of a profile, newest first: off all of them, or off
those that were confirmed.
-/
def saves {α : Type} (service metric : String)
    (f : SysEvent K → List (SysEvent K) → Option α) (confirmed : Bool) :
    List (SysEvent K) → List α
  | [] => []
  | e :: tr =>
      if savesOf service metric e.op && (!confirmed || e.call.isOk) then
        (f e tr).toList ++ saves service metric f confirmed tr
      else saves service metric f confirmed tr

theorem saves_cons {α : Type} {service metric : String}
    {f : SysEvent K → List (SysEvent K) → Option α} {e : SysEvent K} {tr : List (SysEvent K)}
    {a : α} (hop : savesOf service metric e.op = true) (ha : f e tr = some a) (confirmed : Bool) :
    saves service metric f confirmed (e :: tr)
      = if !confirmed || e.call.isOk then a :: saves service metric f confirmed tr
        else saves service metric f confirmed tr := by
  simp only [saves, hop, ha, Bool.true_and, Option.toList_some, List.singleton_append]

theorem saves_cons_ne {α : Type} {service metric : String}
    {f : SysEvent K → List (SysEvent K) → Option α} {e : SysEvent K} {tr : List (SysEvent K)}
    (hop : savesOf service metric e.op = false) (confirmed : Bool) :
    saves service metric f confirmed (e :: tr) = saves service metric f confirmed tr := by
  simp [saves, hop]

section

variable [Scalar K] {cfg : Settings}
variable {P : SysConfig K → SysAct K → Prop} {w : World K} {c : SysConfig K}

/-- A save of the CPU or the traffic profile learns one value. -/
theorem learn_of_save (h : (system cfg).Run P w c) {e : SysEvent K} {pre : List (SysEvent K)}
    (he : e :: pre <:+ c.trace) {service metric : String} {row : BaselineRow K}
    (hop : e.op = .saveProfile service metric row) (hmetric : metric ≠ metricCost) :
    ∃ s now, sampleOf e.tag = some s ∧ serviceOf e.tag = some service
      ∧ row = baselineRow (s.learn (profileOf e.before service metric)) now := by
  have hstores := stores_of_suffix h he hop
  have hkept := fun {l t : History K} {p : Profile K} =>
    loaded_kept h he hop (l := l) (t := t) (p := p)
  generalize e.tag = tag at hstores ⊢
  generalize hist pre e.tid = t at hstores hkept
  cases hstores with
  | @traffic m p now t =>
      have hp := hkept (l := [⟨.now, .ok now⟩]) rfl (by simp [isSave])
      exact ⟨_, now, rfl, rfl, by rw [hp]; rfl⟩
  | @cpu m v p now t hv =>
      have hp := hkept (l := [⟨.now, .ok now⟩]) rfl (by simp [isSave])
      exact ⟨⟨bucketKey m.timestamp, v⟩, now, by simp [sampleOf, hv], rfl, by rw [hp]; rfl⟩
  | cost => exact absurd rfl hmetric

/-- A save of the cost profile judges one reading. -/
theorem judge_of_save (h : (system cfg).Run P w c) {e : SysEvent K} {pre : List (SysEvent K)}
    (he : e :: pre <:+ c.trace) {service : String} {row : BaselineRow K}
    (hop : e.op = .saveProfile service metricCost row) :
    ∃ r now, readingOf e pre = some r ∧ r.message.service = service ∧ e.tag = .cost r.message
      ∧ row = baselineRow (r.judge (profileOf e.before service metricCost)) now := by
  have hstores := stores_of_suffix h he hop
  have hkept := fun {l t : History K} {p : Profile K} =>
    loaded_kept h he hop (l := l) (t := t) (p := p)
  generalize htag : e.tag = tag at hstores
  generalize hh : hist pre e.tid = t at hstores hkept
  generalize hmetric : metricCost = metric at hstores hkept hop
  cases hstores with
  | traffic => cases (show metricCost ≠ metricTraffic by decide) hmetric
  | cpu => cases (show metricCost ≠ metricCpu by decide) hmetric
  -- the signal was looked up in this transcript; what it answered is in the world before
  | @cost m p tz now t =>
      have hp := hkept (l := [⟨.now, .ok now⟩, ⟨.getTrafficZ m.service, .ok tz⟩]) rfl
        (by simp [isSave])
      obtain ⟨g, preg, hfind, hg, hgi, hgcall, _⟩ :=
        find_of_hist (q := isLook) (l := [_]) hh (by simp [isLook]) rfl
      have hgz : g.before.trafficZ m.service = tz := by
        obtain ⟨x, hx⟩ := exec_of_call h (hg.trans ((List.suffix_cons e pre).trans he)) hgcall
        exact Except.ok.inj (congrArg Prod.fst hx)
      refine ⟨⟨m, tz⟩, now, ?_, rfl, rfl, by rw [hp]⟩
      simp only [readingOf, htag, lookedIn, hfind, Option.map_some, Option.bind_some, hgz]

/--
**The persisted profile is the initial one with every save applied in its turn.**

The saves that took effect are all those that were confirmed, and some that were not.
-/
theorem exists_saved {α : Type} {service metric : String}
    (f : SysEvent K → List (SysEvent K) → Option α) (step : α → Profile K → Profile K)
    (h : (system cfg).Run P w c)
    (hstep : ∀ e pre row, e :: pre <:+ c.trace → e.op = .saveProfile service metric row →
      ∃ a, f e pre = some a ∧ row.profile = step a (profileOf e.before service metric)) :
    ∃ xs, (saves service metric f true c.trace).Sublist xs
      ∧ xs.Sublist (saves service metric f false c.trace)
      ∧ profileOf c.world service metric = xs.foldr step (profileOf w service metric) := by
  -- induction on the run; only a step that saves extends the list
  induction h with
  | init => exact ⟨[], .slnil, .slnil, rfl⟩
  | @tail c c' a hr hp hs ih =>
      rcases System.step_cases hs with ⟨x, w', tag, p, _, hst, rfl⟩ |
        ⟨i, x, tag, o, k, rfl, ht, rfl⟩ | ⟨v, _, rfl⟩
      · obtain ⟨xs, hconf, hall, hxs⟩ := ih hstep
        exact ⟨xs, hconf, hall, (profileOf_start hst _ _).trans hxs⟩
      · obtain ⟨xs, hconf, hall, hxs⟩ := ih fun e pre row he =>
          hstep e pre row (he.trans (List.suffix_cons _ _))
        by_cases hop : savesOf service metric o = true
        · obtain ⟨row, rfl⟩ := savesOf_eq hop
          obtain ⟨b, hb, hrow⟩ := hstep _ _ row (List.suffix_refl _) rfl
          rw [saves_cons hop hb, saves_cons hop hb]
          dsimp only at hrow
          cases hf : x.fault with
          | none =>
              refine ⟨b :: xs, ?_, hall.cons_cons b, ?_⟩
              · rw [if_pos (by simp [Event.call, Call.isOk, system, exec, hf, faulty])]
                exact hconf.cons_cons b
              · rw [List.foldr_cons, ← hxs, ← hrow]
                simp only [system, exec, hf, faulty, profileOf_saved]
          -- it failed before the write: neither confirmed nor saved
          | before er =>
              refine ⟨xs, ?_, hall.cons b, ?_⟩
              · rw [if_neg (by simp [Event.call, Call.isOk, system, exec, hf, faulty])]
                exact hconf
              · simp only [system, exec, hf, faulty, hxs]
          -- it was written, but the handler was told that it failed
          | after er =>
              refine ⟨b :: xs, ?_, hall.cons_cons b, ?_⟩
              · rw [if_neg (by simp [Event.call, Call.isOk, system, exec, hf, faulty])]
                exact hconf.cons b
              · rw [List.foldr_cons, ← hxs, ← hrow]
                simp only [system, exec, hf, faulty, profileOf_saved]
        · have hop' : savesOf service metric o = false := Bool.eq_false_iff.mpr hop
          rw [saves_cons_ne hop', saves_cons_ne hop']
          refine ⟨xs, hconf, hall, ?_⟩
          rcases profileOf_changes (exec_changes c.world o x) service metric with
            hsame | ⟨row, rfl, _⟩
          · exact hsame.trans hxs
          · simp [savesOf] at hop
      · obtain ⟨xs, hconf, hall, hxs⟩ := ih hstep
        exact ⟨xs, hconf, hall, (profileOf_env _ _ _ _).trans hxs⟩

end

end HyperTrace.Proof
