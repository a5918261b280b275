import HyperTrace.Proof.Deliveries
import HyperTrace.Proof.Writes

/-!
# A dwell of three

The streak of qualifying readings is a counter in the persisted profile of the
cost metric, next to the buckets it is judged by. One handler loads the profile,
looks up the traffic signal and writes the profile back several calls later, with
the traffic handler and all the other services in between.

What makes the counter right is that the cost consumer handles one delivery at a
time: between loading and saving nobody else saves that profile. So each save
counts on from the state it finds, and by induction over the run the counter is
the number of readings at the end of the trace that qualified.
-/

namespace HyperTrace.Proof

open HyperTrace Effect Behaviour

variable {K : Type}

/-! ## The persisted profiles -/

/-- The persisted profile of a metric of a service. -/
def profileOf (w : World K) (service metric : String) : Profile K :=
  ((w.baselines service metric).map BaselineRow.profile).getD fun _ => none

/-- A save of that profile. -/
def savesOf (service metric : String) : Op K → Bool
  | .saveProfile s m _ => s = service && m = metric
  | _ => false

theorem savesOf_eq {service metric : String} {o : Op K} (h : savesOf service metric o = true) :
    ∃ row, o = .saveProfile service metric row := by
  cases o with
  | saveProfile s m row =>
      simp only [savesOf, Bool.and_eq_true, decide_eq_true_eq] at h
      obtain ⟨rfl, rfl⟩ := h
      exact ⟨row, rfl⟩
  | _ => cases h

theorem profileOf_saved (w : World K) (service metric : String) (row : BaselineRow K) :
    profileOf (w.saveProfile service metric row) service metric = row.profile := by
  simp [profileOf, World.saveProfile]

/-- Only a save of that profile changes it. -/
theorem profileOf_changes {w w' : World K} {o : Op K} (h : Changes w o w')
    (service metric : String) :
    profileOf w' service metric = profileOf w service metric
      ∨ ∃ row, o = .saveProfile service metric row
          ∧ w' = w.saveProfile service metric row := by
  rcases h.baselines with hsame | ⟨s, m, row, rfl, rfl⟩
  · left
    rw [profileOf, hsame, profileOf]
  · by_cases hkey : service = s ∧ metric = m
    · obtain ⟨rfl, rfl⟩ := hkey
      exact Or.inr ⟨row, rfl, rfl⟩
    · left
      simp only [profileOf, World.saveProfile, if_neg hkey]

theorem profileOf_env (w : World K) (e : Env) (service metric : String) :
    profileOf (w.env e) service metric = profileOf w service metric := by
  cases e <;> rfl

/-! ## The persisted state -/

def consecutiveQualifying (w : World K) (service : String) : Nat :=
  (FlagState.fromDict (profileOf w service metricCost flagStateKey)).consecutiveQualifying

/-- A save of the cost profile of a service. -/
def savesCost : Op K → Bool
  | .saveProfile _ metric _ => metric = metricCost
  | _ => false

def isLook : Op K → Bool
  | .getTrafficZ _ => true
  | _ => false

section

variable [Scalar K] {cfg : Settings}
variable {P : SysConfig K → SysAct K → Prop} {w : World K} {c : SysConfig K}

theorem profileOf_start {v v' : World K} {n : Nat} {x : Start K} {tag : Tag K} {p : Py K Reply}
    (h : (system cfg).start v n x = some (v', tag, p)) (service metric : String) :
    profileOf v' service metric = profileOf v service metric := by
  rw [profileOf, (start_starts h).1.baselines, profileOf]

/-! ## Readings -/

/-- Whether a reading qualifies in a world. -/
def qualifiesIn (w : World K) (m : CostEvent K) : Bool :=
  qualifies m (profileOf w m.service metricCost) (w.trafficZ m.service)

/-- The world in which a thread looked up the traffic signal. -/
def lookedIn (tr : List (SysEvent K)) (i : Nat) : Option (World K) :=
  (tr.find? fun e => e.tid = i && isLook e.op).map Event.before

/--
The readings of a service that have been handled, newest first: for each of them
whether it qualified, in the world in which its handler looked.
-/
def readings (service : String) : List (SysEvent K) → List Bool
  | [] => []
  | e :: tr =>
      match e.tag, e.op with
      | .cost m, .saveProfile s metric _ =>
          if s = service ∧ metric = metricCost then
            (lookedIn tr e.tid).any (qualifiesIn · m) :: readings service tr
          else readings service tr
      | _, _ => readings service tr

/-- The z-score of the latest traffic sample of a service. -/
def latestTraffic (service : String) : List (SysEvent K) → Option K
  | [] => none
  | e :: tr =>
      match e.tag, e.op with
      | .traffic _, .setTrafficZ s z => if s = service then some z else latestTraffic service tr
      | _, _ => latestTraffic service tr

theorem readings_cons_ne {service : String} {e : SysEvent K} {tr : List (SysEvent K)}
    (h : ∀ row, e.op ≠ .saveProfile service metricCost row) :
    readings service (e :: tr) = readings service tr := by
  simp only [readings]
  split
  · rename_i m s metric row htag hop
    refine if_neg ?_
    intro hx
    obtain ⟨rfl, rfl⟩ := hx
    exact h row hop
  · rfl

/-! ## Who writes what -/

/-- Only the traffic handler sets a traffic signal, to the z-score of its sample. -/
theorem traffic_set_by {tag : Tag K} {t : History K} {service : String} {z : K}
    (h : Calls cfg tag t (.setTrafficZ service z)) :
    ∃ m p, tag = .traffic m ∧ service = m.service
      ∧ (⟨.loadProfile m.service metricTraffic, .ok p⟩ : SysCall K) ∈ t
      ∧ z = scoreIn (BucketStats.fromDict (p (bucketKey m.timestamp))) m.requestsPerSecond := by
  rcases detecting h rfl with ⟨m, rfl, hmay⟩ | ⟨m, _, hmay⟩
  · cases hmay with
    | set hload => exact ⟨_, _, rfl, rfl, hload, rfl⟩
  · cases hmay with
    | early _ ho => cases ho

/-- The cost profile is saved by a cost handler, about the reading it has judged. -/
inductive SavedBy (service : String) (row : BaselineRow K) : Tag K → History K → Prop where
  | mk {m : CostEvent K} {h : History K} {p : Profile K} {tz : Option K} {now : Time} :
      service = m.service → Early m h → Counts m p tz row →
      SavedBy service row (.cost m) (⟨.now, .ok now⟩ :: looked m p tz h)

theorem cost_saved_by {tag : Tag K} {t : History K} {service : String} {row : BaselineRow K}
    (h : Calls cfg tag t (.saveProfile service metricCost row)) : SavedBy service row tag t := by
  rcases detecting h rfl with ⟨m, _, hmay⟩ | ⟨m, rfl, hmay⟩
  · generalize hmetric : metricCost = metric at hmay
    cases hmay
    cases (show metricCost ≠ metricTraffic by decide) hmetric
  · cases hmay with
    | early _ ho =>
        simp only [isEarly, Bool.and_eq_true, decide_eq_true_eq] at ho
        cases (show metricCost ≠ metricCpu by decide) ho.2
    | save hearly hcounts => exact .mk rfl hearly hcounts

omit [Scalar K] in
/-- Before the reading is judged no cost profile is saved. -/
theorem early_savesCost {m : CostEvent K} {h : History K} (hh : Early m h) :
    ∀ c ∈ h, savesCost c.op = false := by
  intro c hc
  have hop := hh c hc
  cases ho : c.op with
  | saveProfile s metric row =>
      rw [ho] at hop
      simp only [isEarly, Bool.and_eq_true, decide_eq_true_eq] at hop
      rw [hop.2]
      rfl
  | _ => rfl

omit [Scalar K] in
theorem looked_savesCost {m : CostEvent K} {p : Profile K} {tz : Option K} {h : History K}
    (hh : Early m h) : ∀ c ∈ looked m p tz h, savesCost c.op = false := by
  intro c hc
  rcases List.mem_cons.mp hc with rfl | hc
  · rfl
  · rcases List.mem_cons.mp hc with rfl | hc
    · rfl
    · exact early_savesCost hh c hc

theorem unsettled_of_cost {m : CostEvent K} {t : History K} {o : Op K}
    (h : Calls cfg (.cost m) t o) : Unsettled t := by
  cases h with
  | handle _ hu => exact hu
  | settle _ hu => exact hu

/-! ## One save at a time -/

/--
**What a handler has loaded is still the persisted profile.**

Whoever saved it meanwhile was handling a delivery of the same consumer, so it was
this very thread, and this thread has saved nothing since it loaded.
-/
theorem kept_since (h : (system cfg).Run P w c) {e : SysEvent K} {pre : List (SysEvent K)}
    (he : e :: pre <:+ c.trace) {consumer : Consumer} (htag : consumerOf e.tag = some consumer)
    (hun : Unsettled (hist pre e.tid)) {service metric : String} {l t : History K} {p : Profile K}
    (hsaves : ∀ e' pre' row, e' :: pre' <:+ c.trace → e'.op = .saveProfile service metric row →
      consumerOf e'.tag = some consumer ∧ Unsettled (hist pre' e'.tid))
    (hload : hist pre e.tid = l ++ ⟨.loadProfile service metric, .ok p⟩ :: t)
    (hl : ∀ call ∈ l, ∀ row, call.op ≠ .saveProfile service metric row) :
    profileOf e.before service metric = p := by
  obtain ⟨c₀, _, _, hr, _, hworld, htr, _⟩ := h.origin he
  obtain ⟨ld, prel, x, hld, hldi, hldcall, hldpre, hx⟩ :=
    answered_after hr (htr ▸ List.suffix_refl _) hload
  have hafter : profileOf ld.after service metric = p := by
    obtain ⟨hf, hok⟩ := faulty_ok (congrArg Prod.fst hx)
    have hsnd := congrArg Prod.snd hx
    simp only [exec, hf, faulty] at hsnd
    rw [← hsnd]
    exact Except.ok.inj hok
  rw [← hworld]
  rcases hr.changed_since (G := fun w => profileOf w service metric)
    (fun hs => profileOf_start hs _ _) (fun w e => profileOf_env w e _ _) (htr ▸ hld) with
    hsame | ⟨e', pre', he', hlt, hne⟩
  · exact hsame.trans hafter
  · rcases profileOf_changes (changes_of_suffix hr he') service metric with hsame | ⟨row, hop, _⟩
    · exact absurd hsame hne
    · obtain ⟨c₁, _, _, hr₁, _, _, htr₁, ht₁, _⟩ := hr.origin he'
      have hsuf : e' :: pre' <:+ pre := htr ▸ he'
      obtain ⟨hconsumer, hun'⟩ :=
        hsaves e' pre' row (hsuf.trans ((List.suffix_cons e pre).trans he)) hop
      obtain ⟨u, hu, hutag⟩ := hr₁.tag_of_mem (htr₁ ▸ hlt.subset (List.mem_cons_self ..))
      have hldtag : ld.tag = e.tag := by
        refine h.tag_eq ?_ (he.subset (List.mem_cons_self ..)) hldi
        exact ((List.suffix_cons e pre).trans he).subset (hld.subset (List.mem_cons_self ..))
      have htid : e'.tid = ld.tid := by
        refine one_delivery hr₁ ht₁ hu hconsumer (by rw [hutag, hldtag, htag]) (htr₁ ▸ hun') ?_
        rw [htr₁, hldi]
        intro call hcall
        exact hun call ((hist_suffix ((List.suffix_cons e' pre').trans hsuf) e.tid).subset hcall)
      -- so its save stands in this thread's own transcript, after the load
      have hmem : e'.call ∈ l := by
        obtain ⟨q, hq⟩ := hist_suffix hsuf e.tid
        obtain ⟨r, hr'⟩ := hist_suffix hlt e.tid
        rw [← hldi, ← htid, hist_cons_self, htid, hldi] at hq
        rw [← hldi, hist_cons_self, hldi, hldcall, hldpre] at hr'
        rw [← hr', hload] at hq
        have hsplit : (q ++ e'.call :: r) ++ ⟨.loadProfile service metric, .ok p⟩ :: t
            = l ++ ⟨.loadProfile service metric, .ok p⟩ :: t := by
          simpa using hq
        rw [← List.append_cancel_right hsplit]
        exact List.mem_append_right _ (List.mem_cons_self ..)
      exact absurd hop (hl _ hmem row)

theorem profile_kept (h : (system cfg).Run P w c) {e : SysEvent K} {pre : List (SysEvent K)}
    (he : e :: pre <:+ c.trace) {m : CostEvent K} (htag : e.tag = .cost m) {l t : History K}
    {p : Profile K}
    (hload : hist pre e.tid = l ++ ⟨.loadProfile m.service metricCost, .ok p⟩ :: t)
    (hsave : ∀ call ∈ hist pre e.tid, savesCost call.op = false) :
    profileOf e.before m.service metricCost = p := by
  have hun : Unsettled (hist pre e.tid) := unsettled_of_cost (htag ▸ calls_of_suffix h he)
  have hconsumer : consumerOf e.tag = some .behaviourCost := by
    rw [htag]
    rfl
  refine kept_since h he hconsumer hun ?_ hload ?_
  · intro e' pre' row he' hop
    have hcalls := calls_of_suffix h he'
    rw [hop] at hcalls
    generalize e'.tag = tag' at hcalls ⊢
    generalize hist pre' e'.tid = t' at hcalls ⊢
    cases cost_saved_by hcalls
    exact ⟨rfl, unsettled_of_cost hcalls⟩
  · intro call hcall row hop
    have hquiet := hsave call (hload ▸ List.mem_append_left _ hcall)
    rw [hop] at hquiet
    cases hquiet

/-- **What a save counts on, and what the reading was judged by.** -/
theorem judged_at_save (h : (system cfg).Run P w c) {e : SysEvent K} {pre : List (SysEvent K)}
    (he : e :: pre <:+ c.trace) {service : String} {row : BaselineRow K}
    (hop : e.op = .saveProfile service metricCost row) :
    ∃ m tz, e.tag = .cost m ∧ m.service = service
      ∧ Counts m (profileOf e.before service metricCost) tz row
      ∧ readings service (e :: pre)
          = qualifies m (profileOf e.before service metricCost) tz :: readings service pre := by
  have hcalls := calls_of_suffix h he
  rw [hop] at hcalls
  have hsaved := cost_saved_by hcalls
  generalize htag : e.tag = tag at hsaved
  generalize hh : hist pre e.tid = t at hsaved
  cases hsaved with
  | @mk m h₀ p tz now hservice hearly hcounts =>
      subst hservice
      have hnone : ∀ call ∈ (⟨.now, .ok now⟩ :: looked m p tz h₀ : History K),
          savesCost call.op = false := by
        intro call hcall
        rcases List.mem_cons.mp hcall with rfl | hcall
        · rfl
        · exact looked_savesCost hearly call hcall
      have hp : profileOf e.before m.service metricCost = p :=
        profile_kept h he htag (l := [_, _]) hh (hh ▸ hnone)
      obtain ⟨g, preg, hfind, hg, hgi, hgcall, hgpre⟩ :=
        find_of_hist (q := isLook) (l := [_]) hh (by simp [isLook]) rfl
      have hpre : pre <:+ c.trace := (List.suffix_cons e pre).trans he
      have hgtag : g.tag = .cost m := by
        rw [← htag]
        exact h.tag_eq ((hg.trans hpre).subset (List.mem_cons_self ..))
          (he.subset (List.mem_cons_self ..)) hgi
      -- between the look at the signal and the save nobody saved the profile, either
      have hgp : profileOf g.before m.service metricCost = p := by
        refine profile_kept h (hg.trans hpre) hgtag (l := []) (hgi ▸ hgpre) ?_
        rw [hgi, hgpre]
        intro call hcall
        exact hnone call (List.mem_cons_of_mem _ (List.mem_cons_of_mem _ hcall))
      have hgz : g.before.trafficZ m.service = tz := by
        obtain ⟨x, hx⟩ := exec_of_call h (hg.trans hpre) hgcall
        exact Except.ok.inj (congrArg Prod.fst hx)
      refine ⟨m, tz, rfl, rfl, hp ▸ hcounts, ?_⟩
      simp only [readings, htag, hop, and_self, ↓reduceIte, lookedIn, hfind, Option.map_some,
        Option.any_some, qualifiesIn, hgp, hgz, hp]

/-! ## The count -/

/-- The database and the broker serve the cost handler, and what it is sent is numeric. -/
def costServed (c : SysConfig K) : SysAct K → Bool
  | .start (.cost m) =>
      match m.cpuCores with
      | some none => false
      | _ => true
  | .step i x =>
      match c.threads[i]? with
      | some ⟨.cost _, _⟩ => x.fault = .none
      | _ => true
  | _ => true

omit [Scalar K] in
theorem served_none {c : SysConfig K} {i : Nat} {x : Choice} {m : CostEvent K} {p : Py K Reply}
    (h : costServed c (.step i x) = true) (ht : c.threads[i]? = some ⟨.cost m, p⟩) :
    x.fault = .none := by
  simpa [costServed, ht] using h

/-- A save counts one more, or starts again from nothing. -/
theorem count_saved (hP : ∀ c a, P c a → costServed c a = true) (h : (system cfg).Run P w c)
    {e : SysEvent K} {pre : List (SysEvent K)} (he : e :: pre <:+ c.trace) {service : String}
    {row : BaselineRow K} (hop : e.op = .saveProfile service metricCost row) :
    ∃ q, readings service (e :: pre) = q :: readings service pre
      ∧ consecutiveQualifying e.after service
          = if q then consecutiveQualifying e.before service + 1 else 0 := by
  obtain ⟨m, tz, htag, hservice, ⟨suppressed, hrow⟩, hreadings⟩ := judged_at_save h he hop
  refine ⟨_, hreadings, ?_⟩
  obtain ⟨c₀, x, k, hr, hp, _, _, ht, hx⟩ := h.origin he
  rw [htag] at ht
  have hf := served_none (hP _ _ hp) ht
  have hafter : e.after = e.before.saveProfile service metricCost row := by
    rw [show e.after = (exec e.before e.op x).2 from (congrArg Prod.snd hx).symm, hop]
    simp only [exec, hf, faulty]
  rw [consecutiveQualifying, hafter, profileOf_saved, hrow]
  rfl

/-- **The persisted count is the number of latest readings that qualified.** -/
theorem count_eq (hP : ∀ c a, P c a → costServed c a = true)
    (h : (system cfg).Run P (World.empty K) c) (service : String) :
    consecutiveQualifying c.world service = ((readings service c.trace).takeWhile id).length := by
  refine h.keeps (I := fun v tr =>
    consecutiveQualifying v service = ((readings service tr).takeWhile id).length) rfl ?_ ?_ ?_
  · intro c x w' tag p hst ih
    rw [← ih, consecutiveQualifying, profileOf_start hst, consecutiveQualifying]
  -- only a save of this profile moves the count, and it adds one reading
  · intro c i x tag o k _ _ _ h' ih
    by_cases hop : ∃ row, o = .saveProfile service metricCost row
    · obtain ⟨row, rfl⟩ := hop
      obtain ⟨q, hreadings, hcount⟩ := count_saved hP h' (List.suffix_refl _) rfl
      dsimp only at hcount hreadings
      rw [hreadings, hcount, ih]
      cases q <;> rfl
    · push Not at hop
      rcases profileOf_changes (exec_changes c.world o x) service metricCost with
        hsame | ⟨row, ho, _⟩
      · dsimp only [system]
        rw [readings_cons_ne hop, ← ih, consecutiveQualifying, hsame, consecutiveQualifying]
      · exact absurd ho (hop row)
  · intro c v ih
    dsimp only [system]
    rw [← ih, consecutiveQualifying, profileOf_env, consecutiveQualifying]

/-! ## Announcing -/

theorem start_cost {v v' : World K} {n : Nat} {x : Start K} {m : CostEvent K} {p : Py K Reply}
    (h : (system cfg).start v n x = some (v', .cost m, p)) : x = .cost m := by
  simp only [system, Option.map_eq_some_iff, Prod.exists, Prod.mk.injEq] at h
  obtain ⟨w₁, tag, hb, _, rfl, _⟩ := h
  cases x with
  | anomaly k =>
      simp only [begin] at hb
      split at hb
      · cases hb
      · obtain ⟨_, _, heq⟩ := Option.map_eq_some_iff.mp hb
        cases heq
  | remediation k =>
      simp only [begin] at hb
      split at hb
      · cases hb
      · obtain ⟨_, _, heq⟩ := Option.map_eq_some_iff.mp hb
        cases heq
  | approve user a => cases hb
  | rollback user a => cases hb
  | createPolicy user policy => cases hb
  | deletePolicy user id => cases hb
  | _ =>
      obtain ⟨_, _, heq⟩ := Option.map_eq_some_iff.mp hb
      cases heq
      try rfl

/-- Every anomaly was inserted under an id its thread had just drawn. -/
theorem fresh_anomaly (h : (system cfg).Run P (World.empty K) c) {i : Nat} {id : Uuid}
    {t : History K} (hi : hist c.trace i = ⟨.uuid4, .ok id⟩ :: t) :
    ∀ a ∈ c.world.anomalies, a.id ≠ id := by
  refine all_anomalies h ?_ ?_
  · intro e pre row he hop hid
    have hcalls := calls_of_suffix h he
    rw [hop] at hcalls
    obtain ⟨_, f, id', now, t', _, _, rfl, ht⟩ := anomaly_inserted_by hcalls
    obtain rfl : id' = id := hid
    -- whoever inserted it would have drawn the id before
    cases mem_of_drawn h (l := []) hi he (r := []) ht
  · intro e pre id' cl ev a _ _ hne
    exact hne

/-- **Whatever the cost handler calls is answered.** -/
theorem cost_answered (hP : ∀ c a, P c a → costServed c a = true)
    (h : (system cfg).Run P (World.empty K) c) {e : SysEvent K} {pre : List (SysEvent K)}
    (he : e :: pre <:+ c.trace) {m : CostEvent K} (htag : e.tag = .cost m) :
    e.call.isOk = true := by
  obtain ⟨tid, tag, op, res, before, after⟩ := e
  dsimp only at htag
  subst htag
  have hcalls := calls_of_suffix h he
  obtain ⟨c₀, x, k, hr, hp, hworld, htr, ht, hx⟩ := h.origin he
  dsimp only at ht hx hcalls hworld
  have hf := served_none (hP _ _ hp) ht
  have hok : ∀ a, (exec before op x).1 = .ok a → (Event.call (⟨tid, .cost m, op, res, before, after⟩
      : SysEvent K)).isOk = true := by
    intro a ha
    rw [show res = .ok a from (congrArg Prod.fst hx).symm.trans ha]
    rfl
  generalize hh : hist pre tid = t at hcalls
  cases hcalls with
  | settle => exact hok () (by simp only [exec, hf, faulty])
  | handle hmay =>
      cases hmay with
      | early _ ho =>
          cases op with
          | now => exact hok _ rfl
          | loadProfile s metric => exact hok _ (by simp only [exec, hf, faulty]; rfl)
          | saveProfile s metric row => exact hok () (by simp only [exec, hf, faulty])
          | _ => cases ho
      | look => exact hok _ rfl
      | wait => exact hok _ rfl
      | save => exact hok () (by simp only [exec, hf, faulty])
      | stamp => exact hok _ rfl
      | draw => exact hok _ rfl
      | publish => exact hok () (by simp only [exec, hf, faulty])
      -- the id was drawn just before, so the insert is admitted
      | @insert _ f id now _ hflags =>
          have hfresh : ∀ a ∈ before.anomalies, a.id ≠ (f.row id now).id :=
            hworld ▸ fresh_anomaly hr (htr ▸ hh)
          have hadmits := admitsAnomaly_iff.mpr ⟨hfresh, hflags.confidence_allowed⟩
          exact hok () (by simp only [exec, hf, faulty]; exact insertAnomaly_admitted hadmits)

/-- An error in the transcript of a cost handler that was served. -/
theorem no_error (hP : ∀ c a, P c a → costServed c a = true)
    (h : (system cfg).Run P (World.empty K) c) {i : Nat} {m : CostEvent K} {p : Py K Reply}
    (ht : c.threads[i]? = some ⟨.cost m, p⟩) {call : SysCall K} (hc : call ∈ hist c.trace i) :
    call.isOk = true := by
  obtain ⟨e, pre, x, he, hi, rfl, _⟩ := answered h (List.suffix_refl _) hc
  obtain ⟨t, ht', htag⟩ := h.tag_of_mem (he.subset (List.mem_cons_self ..))
  rw [hi, ht] at ht'
  cases ht'
  exact cost_answered hP h he htag.symm

/-- The thread has published an anomaly of the service. -/
def Announces (c : SysConfig K) (i : Nat) (service : String) : Prop :=
  ∃ ma, ma.service = service
    ∧ (⟨.basicPublish (.anomaly ma), .ok ()⟩ : SysCall K) ∈ hist c.trace i

/-- The event is the one at which the thread handled its reading. -/
def HandledAt (c : SysConfig K) (i : Nat) (service : String) (e : SysEvent K)
    (pre : List (SysEvent K)) : Prop :=
  e :: pre <:+ c.trace ∧ e.tid = i ∧ ∃ row, e.op = .saveProfile service metricCost row

/-- A thread handles its reading once. -/
theorem handledAt_unique (h : (system cfg).Run P w c) {i : Nat} {service service' : String}
    {e e' : SysEvent K} {pre pre' : List (SysEvent K)} (he : HandledAt c i service e pre)
    (he' : HandledAt c i service' e' pre') : e' = e ∧ pre' = pre := by
  -- before its save a thread has saved no cost profile
  have hnone : ∀ {s : String} {e : SysEvent K} {pre}, HandledAt c i s e pre →
      ∀ call ∈ hist pre i, savesCost call.op = false := by
    intro s e pre hx call hcall
    obtain ⟨hsuf, rfl, row, hop⟩ := hx
    have hcalls := calls_of_suffix h hsuf
    rw [hop] at hcalls
    have hsaved := cost_saved_by hcalls
    generalize e.tag = tag at hsaved
    generalize hist pre e.tid = t at hsaved hcall
    cases hsaved with
    | mk _ hearly =>
        rcases List.mem_cons.mp hcall with rfl | hcall
        · rfl
        · exact looked_savesCost hearly call hcall
  have hin : ∀ {s : String} {e : SysEvent K} {pre tr : List (SysEvent K)}, HandledAt c i s e pre →
      e :: pre <:+ tr → e.call ∈ hist tr i ∧ savesCost e.call.op = true := by
    intro s e pre tr hx hsuf
    obtain ⟨_, hi, row, hop⟩ := hx
    refine ⟨mem_hist.mpr ⟨e, hsuf.subset (List.mem_cons_self ..), hi, rfl⟩, ?_⟩
    rw [show e.call.op = _ from hop]
    rfl
  rcases suffix_cases he.1 he'.1 with ⟨rfl, rfl⟩ | hlt | hlt
  · exact ⟨rfl, rfl⟩
  · obtain ⟨hmem, hsaves⟩ := hin he hlt
    rw [hnone he' _ hmem] at hsaves
    cases hsaves
  · obtain ⟨hmem, hsaves⟩ := hin he' hlt
    rw [hnone he _ hmem] at hsaves
    cases hsaves

omit [Scalar K] in
theorem three_le_streak {l : List Bool} :
    3 ≤ (l.takeWhile id).length ↔ ∃ rest, l = true :: true :: true :: rest := by
  rcases l with _ | ⟨a, _ | ⟨b, _ | ⟨d, l⟩⟩⟩
  · simp
  · cases a <;> simp
  · cases a <;> cases b <;> simp
  · cases a <;> cases b <;> cases d <;> simp

/-- A reading that was judged is to be flagged if it is the third in a row that qualified. -/
theorem judged_handled (hP : ∀ c a, P c a → costServed c a = true)
    (h : (system cfg).Run P (World.empty K) c) {i : Nat} {m : CostEvent K} {l t : History K}
    (hh : hist c.trace i = l ++ t) {flag : Bool} (hj : Judged m t flag) :
    ∃ e pre, HandledAt c i m.service e pre
      ∧ (flag = true ↔ ∃ rest, readings m.service (e :: pre) = true :: true :: true :: rest) := by
  cases hj with
  | @mk h₀ p tz row now hearly hcounts =>
      obtain ⟨e, pre, he, hi, hcall, _⟩ := hist_split hh
      have hop : e.op = .saveProfile m.service metricCost row := congrArg Call.op hcall
      refine ⟨e, pre, ⟨he, hi, row, hop⟩, ?_⟩
      obtain ⟨q, hreadings, hcount⟩ := count_saved hP h he hop
      obtain ⟨c₀, _, _, hr, _, hworld, htr, _⟩ := h.origin he
      have hbefore := count_eq hP hr m.service
      rw [hworld, htr] at hbefore
      -- the count that was written is the one the reading was judged by
      have hafter : consecutiveQualifying e.after m.service = dwelt m p tz := by
        obtain ⟨x, hx⟩ := exec_of_call h he hcall
        obtain ⟨hf, _⟩ := faulty_ok (congrArg Prod.fst hx)
        have hsnd := congrArg Prod.snd hx
        simp only [exec, hf, faulty] at hsnd
        obtain ⟨suppressed, hrow⟩ := hcounts
        rw [consecutiveQualifying, ← hsnd, profileOf_saved, hrow]
        rfl
      have hstreak : dwelt m p tz = ((readings m.service (e :: pre)).takeWhile id).length := by
        rw [← hafter, hcount, hbefore, hreadings]
        cases q <;> rfl
      rw [decide_eq_true_iff, hstreak]
      exact three_le_streak

/-- Nothing has been published when the reading has just been judged. -/
theorem judged_unpublished {m : CostEvent K} {t : History K} {flag : Bool} (hj : Judged m t flag) :
    ∀ c ∈ t, isPublish c.op = false := by
  cases hj with
  | mk hearly =>
      intro c hc
      rcases List.mem_cons.mp hc with rfl | hc
      · rfl
      · rcases List.mem_cons.mp hc with rfl | hc
        · rfl
        · rcases List.mem_cons.mp hc with rfl | hc
          · rfl
          · rcases List.mem_cons.mp hc with rfl | hc
            · rfl
            · have hop := hearly c hc
              cases ho : c.op with
              | basicPublish p => rw [ho] at hop; cases hop
              | _ => rfl

/-- **A handled reading is announced if and only if it is the third in a row that qualified.** -/
theorem announces_iff (hP : ∀ c a, P c a → costServed c a = true)
    (h : (system cfg).Run P (World.empty K) c) {i : Nat} {m : CostEvent K} {p : Py K Reply}
    (ht : c.threads[i]? = some ⟨.cost m, p⟩) (hdone : p.isDone = true) :
    ∃ e pre, HandledAt c i m.service e pre
      ∧ (Announces c i m.service
          ↔ ∃ rest, readings m.service (e :: pre) = true :: true :: true :: rest) := by
  obtain ⟨r, hends⟩ := (thread_obeys h ht).of_isDone hdone
  have hanswered : ∀ call ∈ hist c.trace i, call.isOk = true := fun _ => no_error hP h ht
  unfold Announces
  generalize hh : hist c.trace i = t at hends hanswered ⊢
  obtain @⟨t, r', ack, res, hends, _⟩ := hends
  cases hends with
  | null hnull =>
      obtain ⟨c₀, x, w', q, _, hp, _, hst, _⟩ := h.started ht
      have hserved := hP _ _ hp
      rw [start_cost hst, costServed, hnull] at hserved
      cases hserved
  | raised => cases hanswered _ (List.mem_cons_of_mem _ (List.mem_cons_self ..))
  -- judged and not flagged: nothing was published
  | passed hj =>
      obtain ⟨e, pre, hat, hflag⟩ := judged_handled hP h (l := [_]) hh hj
      refine ⟨e, pre, hat, ?_⟩
      rw [← hflag]
      refine ⟨?_, by simp⟩
      intro hx
      obtain ⟨ma, _, hc⟩ := hx
      have := judged_unpublished hj _ (mem_of_mem_cons_ne hc (by rintro ⟨⟩))
      cases this
  | @flagged t₀ _ f id now r' hj hf hpub =>
      cases hpub with
      | first =>
          obtain ⟨e, pre, hat, hflag⟩ := judged_handled hP h (l := [_, _, _, _, _]) hh hj
          refine ⟨e, pre, hat, ?_⟩
          rw [← hflag]
          refine ⟨fun _ => rfl, fun _ => ⟨f.message id now, hf.service, ?_⟩⟩
          exact List.mem_cons_of_mem _ (List.mem_cons_self ..)
      | refused => cases hanswered _ (List.mem_cons_of_mem _ (List.mem_cons_self ..))
      | second =>
          cases hanswered _ (List.mem_cons_of_mem _ (List.mem_cons_of_mem _
            (List.mem_cons_self ..)))

/-! ## Traffic, and other services -/

omit [Scalar K] in
theorem latestTraffic_cons_ne {service : String} {e : SysEvent K} {tr : List (SysEvent K)}
    (h : ∀ z, e.op ≠ .setTrafficZ service z) :
    latestTraffic service (e :: tr) = latestTraffic service tr := by
  simp only [latestTraffic]
  split
  · rename_i m s z htag hop
    refine if_neg ?_
    intro hx
    subst hx
    exact h z hop
  · rfl

/-- **The traffic signal is that of the latest sample.** -/
theorem trafficZ_eq (h : (system cfg).Run P (World.empty K) c) (service : String) :
    c.world.trafficZ service = latestTraffic service c.trace := by
  refine h.keeps (I := fun v tr => v.trafficZ service = latestTraffic service tr) rfl ?_ ?_ ?_
  · intro c x w' tag p hst ih
    rw [← ih, (start_starts hst).1.trafficZ]
  -- only the traffic handler sets the signal
  · intro c i x tag o k hr _ ht _ ih
    by_cases hop : ∃ z, o = .setTrafficZ service z
    · obtain ⟨z, rfl⟩ := hop
      obtain ⟨m, p, rfl, _⟩ := traffic_set_by (calls_of_next hr ht)
      simp [system, exec, latestTraffic]
    · push Not at hop
      dsimp only [system]
      rw [latestTraffic_cons_ne hop, ← ih]
      rcases (exec_changes c.world o x).trafficZ with hsame | ⟨s, z, rfl, hput⟩
      · rw [hsame]
      · rw [hput, put_ne]
        intro hx
        subst hx
        exact hop z rfl
  · intro c v ih
    rw [← ih]
    cases v <;> rfl

/-- The service a message to the detector is about. -/
def serviceOf : Tag K → Option String
  | .traffic m => some m.service
  | .cost m => some m.service
  | _ => none

/-- A message about another service does nothing to this one. -/
theorem others_kept (h : (system cfg).Run P w c) {e : SysEvent K} (he : e ∈ c.trace)
    {service : String} (hne : serviceOf e.tag ≠ some service) :
    profileOf e.after service metricCost = profileOf e.before service metricCost
      ∧ e.after.trafficZ service = e.before.trafficZ service
      ∧ ∀ ma, e.op = .basicPublish (.anomaly ma) → ma.service ≠ service := by
  obtain ⟨pre, he, _⟩ := h.origin_of_mem he
  have hch := changes_of_suffix h he
  have hcalls := calls_of_suffix h he
  generalize htag : e.tag = tag at hcalls hne
  generalize hh : hist pre e.tid = t at hcalls
  refine ⟨?_, ?_, fun ma hop hservice => ?_⟩
  · rcases profileOf_changes hch service metricCost with hsame | ⟨row, hop, _⟩
    · exact hsame
    · rw [hop] at hcalls
      cases cost_saved_by hcalls with
      | mk hservice => exact absurd (congrArg some hservice.symm) hne
  · rcases hch.trafficZ with hsame | ⟨s, z, hop, hput⟩
    · rw [hsame]
    · rw [hop] at hcalls
      obtain ⟨m, p, rfl, rfl, _⟩ := traffic_set_by hcalls
      rw [hput, put_ne]
      intro hx
      subst hx
      exact hne rfl
  · rw [hop] at hcalls
    obtain ⟨m, f, id, now, t', rfl, hf, rfl, _⟩ := anomaly_published_by hcalls
    exact hne (congrArg some (hf.service.symm.trans hservice))

/-! ## The whole of it -/

/-- **Detection is exactly a dwell of three**, for one service in one configuration. -/
structure DwellOfThree (c : SysConfig K) (service : String) : Prop where
  /-- The persisted count is the length of the maximal run of latest readings that qualified. -/
  count : consecutiveQualifying c.world service
    = ((readings service c.trace).takeWhile id).length
  /-- Each cost message is one reading. Its handler announces an anomaly if and only if that
  reading and the two before it qualified. -/
  announced : ∀ i m p, c.threads[i]? = some ⟨.cost m, p⟩ → m.service = service →
    p.isDone = true → ∃ e pre, HandledAt c i service e pre
      ∧ (∀ e' pre', HandledAt c i service e' pre' → e' = e ∧ pre' = pre)
      ∧ (Announces c i service
          ↔ ∃ rest, readings service (e :: pre) = true :: true :: true :: rest)
  /-- The traffic signal is the z-score of the latest sample. -/
  signal : c.world.trafficZ service = latestTraffic service c.trace
  scored : ∀ e pre z, e :: pre <:+ c.trace → e.op = .setTrafficZ service z →
    ∃ m p, e.tag = .traffic m ∧ m.service = service
      ∧ (⟨.loadProfile service metricTraffic, .ok p⟩ : SysCall K) ∈ hist pre e.tid
      ∧ z = scoreIn (BucketStats.fromDict (p (bucketKey m.timestamp))) m.requestsPerSecond
  /-- No message of another service changes any of this. -/
  others : ∀ e ∈ c.trace, serviceOf e.tag ≠ some service →
    profileOf e.after service metricCost = profileOf e.before service metricCost
      ∧ e.after.trafficZ service = e.before.trafficZ service
      ∧ ∀ ma, e.op = .basicPublish (.anomaly ma) → ma.service ≠ service

theorem dwell_of_three
    (h : (system cfg).Run (fun c a => costServed c a) (World.empty K) c) (service : String) :
    DwellOfThree c service where
  count := count_eq (fun _ _ hp => hp) h service
  announced i m p ht hservice hdone := by
    obtain ⟨e, pre, hat, hiff⟩ := announces_iff (fun _ _ hp => hp) h ht hdone
    subst hservice
    exact ⟨e, pre, hat, fun e' pre' hat' => handledAt_unique h hat hat', hiff⟩
  signal := trafficZ_eq h service
  scored e pre z he hop := by
    have hcalls := calls_of_suffix h he
    rw [hop] at hcalls
    obtain ⟨m, p, htag, rfl, hload, hz⟩ := traffic_set_by hcalls
    exact ⟨m, p, htag, rfl, hload, hz⟩
  others e he hne := others_kept h he hne

end

namespace Scenario

/-- Flat traffic, five readings to learn from, three that stand out. -/
def spike : List (SysAct ℚ) :=
  [.start (.traffic ⟨0, victim, 50⟩)] ++ calls 0 5 ++ [cost 10] ++ calls 1 8 ++
    [cost 11] ++ calls 2 8 ++ [cost 10] ++ calls 3 8 ++ [cost 11] ++ calls 4 8 ++
    [cost 10] ++ calls 5 8 ++ [cost 100] ++ calls 6 8 ++ [cost 100] ++ calls 7 8 ++
    [cost 100] ++ calls 8 12

end Scenario

/-- Five readings to learn from, three that stand out: the third is announced. -/
theorem dwell_of_three_readings :
    ∃ c : SysConfig ℚ, DwellOfThree c Scenario.victim
      ∧ consecutiveQualifying c.world Scenario.victim = 3
      ∧ readings Scenario.victim c.trace = [true, true, true, false, false, false, false, false]
      ∧ c.world.anomalyQueue.length = 1 := by
  obtain ⟨c, hrun, hcheck⟩ := System.exists_run (S := system Scenario.settings)
    (w := World.empty ℚ) (p := costServed)
    (l := Scenario.spike)
    (q := fun c => consecutiveQualifying c.world Scenario.victim = 3
      && readings Scenario.victim c.trace = [true, true, true, false, false, false, false, false]
      && c.world.anomalyQueue.length = 1) (by decide +kernel)
  simp only [Bool.and_eq_true, decide_eq_true_eq] at hcheck
  exact ⟨c, dwell_of_three hrun _, hcheck.1.1, hcheck.1.2, hcheck.2⟩

end HyperTrace.Proof
