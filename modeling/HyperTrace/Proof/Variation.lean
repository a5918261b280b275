import HyperTrace.Effect.Lockstep
import HyperTrace.Proof.Suppression

/-!
# Two runs of the detector

A `Variation` says how the cost readings of two runs of the detector may differ, and
how far everything the detector keeps or publishes differs then. What has to be shown
for it is about one handler at a time, that it makes calls that belong together; that
two whole runs stay together, whatever the interleaving and whatever fails, follows
for every variation at once.
-/

namespace HyperTrace.Behaviour

open Effect

variable {K : Type} [Scalar K]

/-! ## The cost handler, in terms of what it reads -/

/-- What the handler flags, if it does: the profile is the one loaded. -/
def flagOf (m : CostEvent K) (p : Profile K) (tz : Option K) (cpuZ : K) : Flag K :=
  let stats := BucketStats.fromDict (p (bucketKey m.timestamp))
  let mature := decide (stats.n ≥ minSamplesForDetection)
  let scores : Scores K := ⟨(Reading.mk m tz).costZ p, cpuZ, tz.getD 0⟩
  let learned := if ((Reading.mk m tz).admitted p).1 then stats.update m.costPerHour else stats
  { service := m.service
    scores
    scoreConfidence := confidence scores corroborationNone learned.n
    classification := if (evaluateCondition ((Reading.mk m tz).costZ p) cpuZ tz mature).2
      then .legitimateTrafficGrowth else .unclassified
    mature := decide (learned.n ≥ maturitySamples)
    costDelta := if mature then m.costPerHour - stats.mean else 0
    value := m.costPerHour
    bucket := bucketKey m.timestamp
    resource := m.resource }

theorem flagOf_allowed (m : CostEvent K) (p : Profile K) (tz : Option K) (cpuZ : K) :
    confidenceAllowed (flagOf m p tz cpuZ).scoreConfidence = true :=
  Proof.confidence_allowed ..

/-- The handler: the CPU is learned, the reading judged, and flagged if it has to be. -/
theorem handleCost_eq (m : CostEvent K) :
    handleCost m = (do
      let (cpuZ, _) ← scoreAndLearn m.service metricCpu (m.cpuCores.getD (some 0))
        (bucketKey m.timestamp)
      let p ← loadProfile m.service metricCost
      let tz ← call (.getTrafficZ m.service)
      saveProfile m.service metricCost ((Reading.mk m tz).judge p)
      if (Reading.mk m tz).shouldFlag p then flagAnomaly (flagOf m p tz cpuZ)) := by
  unfold handleCost
  refine congrArg (Prog.bind _) (funext fun s => ?_)
  obtain ⟨cpuZ, n⟩ := s
  refine congrArg (Prog.bind _) (funext fun p => ?_)
  refine congrArg (Prog.bind _) (funext fun tz => ?_)
  have hqual := evaluateCondition_fst m p tz cpuZ
  dsimp only at hqual ⊢
  rw [hqual, Reading.judge_eq]
  simp only [flagOf, Reading.costZ, scoreIn, decide_eq_true_eq]
  rfl

/-- What is flagged is never explained by traffic, whatever the CPU did. -/
theorem flagOf_unclassified {m : CostEvent K} {p : Profile K} {tz : Option K}
    (h : (Reading.mk m tz).shouldFlag p = true) (cpuZ : K) :
    (flagOf m p tz cpuZ).classification = .unclassified := by
  rw [Reading.shouldFlag, Bool.and_eq_true] at h
  refine if_neg (Bool.eq_false_iff.mp (evaluateCondition_exclusive ?_))
  have hfst := evaluateCondition_fst m p tz cpuZ
  simp only [decide_eq_true_eq] at hfst
  exact hfst.trans h.1

/-- The evidence, without what is computed from the CPU. -/
def evidenceWithoutCpu (e : Evidence K) : Evidence K :=
  { e with scores := { e.scores with cpuZ := 0 }, confidence := none }

/-- The row without its score, its confidence, and the z-score of the CPU. -/
def rowWithoutCpu (r : AnomalyRow K) : AnomalyRow K :=
  { r with score := 0, confidence := 0, evidence := evidenceWithoutCpu r.evidence }

/-- What is recorded of a reading is the same with any two readings of the CPU, but for these. -/
theorem rowWithoutCpu_flagOf {m : CostEvent K} {p : Profile K} {tz : Option K}
    (hflag : (Reading.mk m tz).shouldFlag p = true) (cores : Option (Option K)) (cpuZ cpuZ' : K)
    (id : Uuid) (now : Time) :
    rowWithoutCpu ((flagOf m p tz cpuZ).row id now)
      = rowWithoutCpu ((flagOf { m with cpuCores := cores } p tz cpuZ').row id now) := by
  have hclass := flagOf_unclassified hflag cpuZ
  have hclass' : (flagOf { m with cpuCores := cores } p tz cpuZ').classification
      = .unclassified := flagOf_unclassified hflag cpuZ'
  unfold rowWithoutCpu Flag.row
  rw [hclass, hclass']
  rfl

end HyperTrace.Behaviour

namespace HyperTrace.Proof

open HyperTrace Effect Behaviour

variable {K : Type}

/-! ## What is seen of a run -/

/-- The thread that flagged something in this event. -/
def flaggedIn (e : SysEvent K) : Option Nat :=
  match e.op with
  | .insertAnomaly _ => some e.tid
  | _ => none

/-- The thread that published an anomaly in this event, and the message. -/
def publishedIn (e : SysEvent K) : Option (Nat × AnomalyMessage K) :=
  match e.op with
  | .basicPublish (.anomaly m) => some (e.tid, m)
  | _ => none

/-- The traffic signal that was set in this event. -/
def signalledIn (e : SysEvent K) : Option (String × K) :=
  match e.op with
  | .setTrafficZ s z => some (s, z)
  | _ => none

/-! ## Variations -/

/-- How two runs of the detector may differ. -/
structure Variation (K : Type) where
  reading : CostEvent K → CostEvent K → Prop
  /-- By metric. -/
  profile : String → Profile K → Profile K → Prop
  baseline : String → BaselineRow K → BaselineRow K → Prop
  anomaly : AnomalyRow K → AnomalyRow K → Prop
  message : AnomalyMessage K → AnomalyMessage K → Prop
  absent : ∀ metric, profile metric (fun _ => none) fun _ => none
  loaded : ∀ {metric row row'}, baseline metric row row' → profile metric row.profile row'.profile
  traffic : ∀ {p p'}, profile metricTraffic p p' → p = p'
  same : ∀ row, baseline metricTraffic row row
  id : ∀ {row row'}, anomaly row row' → row.id = row'.id

namespace Variation

variable (V : Variation K)

/-- Two worlds of the detector. -/
structure Worlds (w w' : World K) : Prop where
  clock : w.clock = w'.clock
  nextUuid : w.nextUuid = w'.nextUuid
  anomalies : List.Forall₂ V.anomaly w.anomalies w'.anomalies
  baselines : ∀ s metric, Option.Rel (V.baseline metric) (w.baselines s metric) (w'.baselines s metric)
  anomalyQueue : List.Forall₂ V.message w.anomalyQueue w'.anomalyQueue
  anomalyDelivered : List.Forall₂ V.message w.anomalyDelivered w'.anomalyDelivered
  trafficZ : w.trafficZ = w'.trafficZ
  busy : w.busy = w'.busy

inductive Tags : Tag K → Tag K → Prop where
  | traffic (m : TrafficSample K) : Tags (.traffic m) (.traffic m)
  | cost {m m' : CostEvent K} (h : V.reading m m') : Tags (.cost m) (.cost m')

inductive Starts : Start K → Start K → Prop where
  | traffic (m : TrafficSample K) : Starts (.traffic m) (.traffic m)
  | cost {m m' : CostEvent K} (h : V.reading m m') : Starts (.cost m) (.cost m')

/-- The calls the detector makes, where the two runs make the same. -/
def isShared : Op K → Bool
  | .now | .uuid4 | .getTrafficZ _ | .setTrafficZ _ _ | .settle _ _ | .loadProfile _ _ => true
  | _ => false

inductive Ops [Scalar K] : Op K → Op K → Prop where
  | same {o : Op K} (ho : isShared o = true) : Ops o o
  | save (service metric : String) {row row' : BaselineRow K} (h : V.baseline metric row row') :
      Ops (.saveProfile service metric row) (.saveProfile service metric row')
  | insert {row row' : AnomalyRow K} (h : V.anomaly row row')
      (hrow : confidenceAllowed row.confidence = true)
      (hrow' : confidenceAllowed row'.confidence = true) :
      Ops (.insertAnomaly row) (.insertAnomaly row')
  | publish {m m' : AnomalyMessage K} (h : V.message m m') :
      Ops (.basicPublish (.anomaly m)) (.basicPublish (.anomaly m'))

/-- Both calls raise the same, or answer the same, or load profiles that belong together. -/
def Answers : (o o' : Op K) → Except Err o.Res → Except Err o'.Res → Prop
  | .loadProfile _ metric, .loadProfile _ _, r, r' =>
      (∃ p p', r = .ok p ∧ r' = .ok p' ∧ V.profile metric p p') ∨ ∃ e, r = .error e ∧ r' = .error e
  | .now, .now, r, r' => r = r'
  | .uuid4, .uuid4, r, r' => r = r'
  | .getTrafficZ _, .getTrafficZ _, r, r' => r = r'
  | .setTrafficZ _ _, .setTrafficZ _ _, r, r' => r = r'
  | .settle _ _, .settle _ _, r, r' => r = r'
  | .saveProfile _ _ _, .saveProfile _ _ _, r, r' => r = r'
  | .insertAnomaly _, .insertAnomaly _, r, r' => r = r'
  | .basicPublish _, .basicPublish _, r, r' => r = r'
  | _, _, _, _ => False

/-- The two runs, taken together. -/
def coupling [Scalar K] : Coupling (Op K) Op.Res Err (World K) (Tag K) (Start K) where
  world := V.Worlds
  tag := V.Tags
  start := V.Starts
  op := V.Ops
  res := V.Answers

variable {V} {w w' : World K}

theorem Worlds.empty : V.Worlds (World.empty K) (World.empty K) where
  clock := rfl
  nextUuid := rfl
  anomalies := .nil
  baselines _ _ := .none
  anomalyQueue := .nil
  anomalyDelivered := .nil
  trafficZ := rfl
  busy := rfl

/-- A profile loaded from a row, or none. -/
theorem Worlds.profile (hw : V.Worlds w w') (s metric : String) :
    V.profile metric (((w.baselines s metric).map BaselineRow.profile).getD fun _ => none)
      (((w'.baselines s metric).map BaselineRow.profile).getD fun _ => none) := by
  have hrow := hw.baselines s metric
  generalize w.baselines s metric = a at hrow ⊢
  generalize w'.baselines s metric = b at hrow ⊢
  cases hrow with
  | none => exact V.absent metric
  | some h => exact V.loaded h

/-- Where belonging together is being equal, the two worlds have the same rows. -/
theorem Worlds.baseline_eq (hw : V.Worlds w w') {metric : String}
    (heq : ∀ row row', V.baseline metric row row' → row = row') (s : String) :
    w.baselines s metric = w'.baselines s metric := by
  have hrow := hw.baselines s metric
  generalize w.baselines s metric = a at hrow ⊢
  generalize w'.baselines s metric = b at hrow ⊢
  cases hrow with
  | none => rfl
  | some h => rw [heq _ _ h]

theorem Worlds.saveProfile (hw : V.Worlds w w') (s metric : String) {row row' : BaselineRow K}
    (h : V.baseline metric row row') :
    V.Worlds (w.saveProfile s metric row) (w'.saveProfile s metric row') := by
  refine { hw with baselines := fun s' metric' => ?_ }
  simp only [World.saveProfile]
  split
  · rename_i heq
    rw [heq.2]
    exact .some h
  · exact hw.baselines s' metric'

theorem Worlds.admits [Scalar K] (hw : V.Worlds w w') {row row' : AnomalyRow K}
    (h : V.anomaly row row') (hrow : confidenceAllowed row.confidence = true)
    (hrow' : confidenceAllowed row'.confidence = true) :
    w.admitsAnomaly row = w'.admitsAnomaly row' := by
  have hids : ∀ {l l' : List (AnomalyRow K)}, List.Forall₂ V.anomaly l l' →
      l.all (fun r => r.id ≠ row.id) = l'.all fun r => r.id ≠ row'.id := by
    intro l l' hl
    induction hl with
    | nil => rfl
    | cons hr _ ih => rw [List.all_cons, List.all_cons, ih, V.id hr, V.id h]
  rw [World.admitsAnomaly, World.admitsAnomaly, hids hw.anomalies, hrow, hrow']

/-- **One call, made in both worlds.** -/
theorem exec_coupled [Scalar K] {o o' : Op K} (x : Choice) (hw : V.Worlds w w') (ho : V.Ops o o') :
    V.Worlds (exec w o x).2 (exec w' o' x).2
      ∧ V.Answers o o' (exec w o x).1 (exec w' o' x).1 := by
  obtain ⟨fault, tie⟩ := x
  cases ho with
  | same hs =>
      cases o with
      | now => exact ⟨hw, congrArg Except.ok hw.clock⟩
      | uuid4 => exact ⟨{ hw with nextUuid := congrArg (· + 1) hw.nextUuid }, congrArg Except.ok hw.nextUuid⟩
      | getTrafficZ s =>
          have hz : w.trafficZ s = w'.trafficZ s := congrFun hw.trafficZ s
          exact ⟨hw, congrArg Except.ok hz⟩
      | setTrafficZ s z =>
          exact ⟨{ hw with trafficZ := congrArg (fun f => put f s z) hw.trafficZ }, rfl⟩
      | settle consumer ack =>
          have hrel : V.Worlds (w.release consumer) (w'.release consumer) := by
            refine { hw with busy := ?_ }
            simp only [World.release, hw.busy]
          cases fault <;> exact ⟨hrel, rfl⟩
      | loadProfile s metric =>
          cases fault with
          | none => exact ⟨hw, .inl ⟨_, _, rfl, rfl, hw.profile s metric⟩⟩
          | before e => exact ⟨hw, .inr ⟨e, rfl, rfl⟩⟩
          | after e => exact ⟨hw, .inr ⟨e, rfl, rfl⟩⟩
      | _ => cases hs
  | save s metric h =>
      have hsave := hw.saveProfile s metric h
      cases fault with
      | none => exact ⟨hsave, rfl⟩
      | before e => exact ⟨hw, rfl⟩
      | after e => exact ⟨hsave, rfl⟩
  | @insert row row' h hrow hrow' =>
      have hins : V.Worlds (w.insertAnomaly row).2 (w'.insertAnomaly row').2
          ∧ (w.insertAnomaly row).1 = (w'.insertAnomaly row').1 := by
        unfold World.insertAnomaly
        rw [hw.admits h hrow hrow']
        split
        · exact ⟨{ hw with anomalies := List.rel_append hw.anomalies (.cons h .nil) }, rfl⟩
        · exact ⟨hw, rfl⟩
      cases fault with
      | none => exact hins
      | before e => exact ⟨hw, rfl⟩
      | after e => exact ⟨hins.1, rfl⟩
  | @publish m m' h =>
      have hput : V.Worlds (w.enqueue (.anomaly m)) (w'.enqueue (.anomaly m')) :=
        { hw with anomalyQueue := List.rel_append hw.anomalyQueue (.cons h .nil) }
      cases fault with
      | none => exact ⟨hput, rfl⟩
      | before e => exact ⟨hw, rfl⟩
      | after e => exact ⟨hput, rfl⟩

theorem env_coupled (e : Env) (hw : V.Worlds w w') : V.Worlds (w.env e) (w'.env e) := by
  cases e with
  | tick n => exact { hw with clock := congrArg (· + (n : ℤ)) hw.clock }
  | redeliverAnomaly n =>
      refine { hw with anomalyQueue := List.rel_append hw.anomalyQueue ?_ }
      cases hm : w.anomalyDelivered[n]? with
      | none =>
          have hnone : w'.anomalyDelivered[n]? = none := by
            rw [List.getElem?_eq_none_iff] at hm ⊢
            rwa [← hw.anomalyDelivered.length_eq]
          rw [hnone]
          exact .nil
      | some m =>
          obtain ⟨m', hm', h⟩ := Coupling.forall₂_getElem? hw.anomalyDelivered hm
          rw [hm']
          exact .cons h .nil
  | _ => exact { hw with }

/-! ## Events -/

theorem flaggedIn_eq [Scalar K] {e e' : SysEvent K} (h : V.coupling.Events e e') :
    flaggedIn e = flaggedIn e' := by
  obtain ⟨tid, tag, op, res, before, after⟩ := e
  obtain ⟨tid', tag', op', res', before', after'⟩ := e'
  obtain ⟨rfl, -, ho, -, -, -⟩ := h
  cases ho <;> rfl

theorem signalledIn_eq [Scalar K] {e e' : SysEvent K} (h : V.coupling.Events e e') :
    signalledIn e = signalledIn e' := by
  obtain ⟨tid, tag, op, res, before, after⟩ := e
  obtain ⟨tid', tag', op', res', before', after'⟩ := e'
  obtain ⟨rfl, -, ho, -, -, -⟩ := h
  cases ho <;> rfl

theorem publishedIn_rel [Scalar K] {e e' : SysEvent K} (h : V.coupling.Events e e') :
    Option.Rel (fun a b => a.1 = b.1 ∧ V.message a.2 b.2) (publishedIn e) (publishedIn e') := by
  obtain ⟨tid, tag, op, res, before, after⟩ := e
  obtain ⟨tid', tag', op', res', before', after'⟩ := e'
  obtain ⟨rfl, -, ho, -, -, -⟩ := h
  cases ho with
  | publish hm => exact .some ⟨rfl, hm⟩
  | same hs =>
      cases op with
      | basicPublish p => cases hs
      | _ => exact .none
  | _ => exact .none

/-! ## Programs -/

section Programs

variable {α : Type} {Q : Except Err α → Except Err α → Prop}

/-- A call both runs make and are answered alike. -/
theorem coupled_shared [Scalar K] {o : Op K} {f f' : o.Res → Py K α} (ho : isShared o = true)
    (hanswers : ∀ r r', V.Answers o o r r' → r = r')
    (h : ∀ a, (f a).Coupled V.coupling Q (f' a)) (he : ∀ e, Q (.error e) (.error e)) :
    (call o >>= f).Coupled V.coupling Q (call o >>= f') := by
  refine Prog.Coupled.call (.same ho) fun r r' hr => ?_
  obtain rfl := hanswers r r' hr
  cases r with
  | ok a => exact .inl ⟨a, a, rfl, rfl, h a⟩
  | error e => exact .inr ⟨e, rfl, rfl, he e⟩

theorem coupled_load [Scalar K] (s metric : String) {f f' : Profile K → Py K α}
    (h : ∀ p p', V.profile metric p p' → (f p).Coupled V.coupling Q (f' p'))
    (he : ∀ e, Q (.error e) (.error e)) :
    (loadProfile s metric >>= f).Coupled V.coupling Q (loadProfile s metric >>= f') := by
  refine Prog.Coupled.call (.same rfl) fun r r' hr => ?_
  obtain ⟨p, p', rfl, rfl, hp⟩ | ⟨e, rfl, rfl⟩ := hr
  · exact .inl ⟨p, p', rfl, rfl, h p p' hp⟩
  · exact .inr ⟨e, rfl, rfl, he e⟩

theorem coupled_save [Scalar K] (s metric : String) {p p' : Profile K}
    (hp : ∀ now, V.baseline metric (baselineRow p now) (baselineRow p' now)) :
    (saveProfile s metric p).Coupled V.coupling Eq (saveProfile s metric p') := by
  refine coupled_shared rfl (fun _ _ hr => hr) (fun now => ?_) fun _ => rfl
  refine .op (.save s metric (hp now)) fun r r' hr => ?_
  obtain rfl : r = r' := hr
  cases r with
  | ok a => exact .ret rfl
  | error e => exact .raise rfl

theorem coupled_publish [Scalar K] {m m' : AnomalyMessage K} (h : V.message m m') :
    (publish (.anomaly m)).Coupled V.coupling Eq (publish (.anomaly m')) := by
  have hcall : (call (.basicPublish (.anomaly m)) : Py K Unit).Coupled V.coupling Eq
      (call (.basicPublish (.anomaly m'))) := by
    refine .op (.publish h) fun r r' hr => ?_
    obtain rfl : r = r' := hr
    cases r with
    | ok a => exact .ret rfl
    | error e => exact .raise rfl
  refine Prog.Coupled.tryCatch hcall (fun _ _ hr => hr) fun e e' he => ?_
  obtain rfl : e = e' := Except.error.inj he
  exact .ite (fun _ => hcall) fun _ => .raise rfl

/-- The anomaly and the message of a flag belong together with those of the other. -/
def Flagged [Scalar K] (V : Variation K) (f f' : Behaviour.Flag K) : Prop :=
  ∀ id now, V.anomaly (f.row id now) (f'.row id now) ∧ V.message (f.message id now) (f'.message id now)

theorem coupled_flagAnomaly [Scalar K] {f f' : Behaviour.Flag K} (hf : V.Flagged f f')
    (hconf : confidenceAllowed f.scoreConfidence = true)
    (hconf' : confidenceAllowed f'.scoreConfidence = true) :
    (flagAnomaly f).Coupled V.coupling Eq (flagAnomaly f') := by
  refine coupled_shared rfl (fun _ _ hr => hr) (fun now => ?_) fun _ => rfl
  refine coupled_shared rfl (fun _ _ hr => hr) (fun id => ?_) fun _ => rfl
  refine Prog.Coupled.call (.insert (hf id now).1 hconf hconf') fun r r' hr => ?_
  obtain rfl : r = r' := hr
  cases r with
  | ok a => exact .inl ⟨a, a, rfl, rfl, coupled_publish (hf id now).2⟩
  | error e => exact .inr ⟨e, rfl, rfl, rfl⟩

variable [Scalar K]

/-- Both values were scored against profiles that belong together, or both scorings raised. -/
def Scored (V : Variation K) (metric bucket : String) (v v' : K) (r r' : Except Err (K × Nat)) :
    Prop :=
  (∃ p p' n n', V.profile metric p p' ∧ r = .ok (scoreIn (BucketStats.fromDict (p bucket)) v, n)
      ∧ r' = .ok (scoreIn (BucketStats.fromDict (p' bucket)) v', n'))
    ∨ ∃ e, r = .error e ∧ r' = .error e

theorem coupled_scoreAndLearn (s metric bucket : String) {v v' : K}
    (hlearn : ∀ p p' now, V.profile metric p p' →
      V.baseline metric (baselineRow (learn p bucket v) now) (baselineRow (learn p' bucket v') now)) :
    (scoreAndLearn s metric (some v) bucket).Coupled V.coupling (V.Scored metric bucket v v')
      (scoreAndLearn s metric (some v') bucket) := by
  refine coupled_load s metric (fun p p' hp => ?_) fun e => .inr ⟨e, rfl, rfl⟩
  simp only [asNumber, Prog.pure_eq, Prog.bind_eq, Prog.ret_bind]
  refine Prog.Coupled.bind (R := Eq) (coupled_save s metric fun now => hlearn p p' now hp) ?_ ?_
  · intro _ _ _
    exact .ret (.inl ⟨p, p', _, _, hp, rfl, rfl⟩)
  · intro e e' he
    obtain rfl : e = e' := Except.error.inj he
    exact .inr ⟨e, rfl, rfl⟩

theorem coupled_handleTraffic (m : TrafficSample K) :
    (handleTraffic m).Coupled V.coupling Eq (handleTraffic m) := by
  refine Prog.Coupled.bind (coupled_scoreAndLearn m.service metricTraffic _ ?_) ?_ ?_
  · intro p p' now hp
    rw [V.traffic hp]
    exact V.same _
  · intro zn zn' hz
    obtain ⟨p, p', n, n', hp, hr, hr'⟩ | ⟨e, hr, -⟩ := hz
    · cases hr
      cases hr'
      rw [V.traffic hp]
      refine .op (.same rfl) fun r r' hr => ?_
      obtain rfl : r = r' := hr
      cases r with
      | ok a => exact .ret rfl
      | error e => exact .raise rfl
    · cases hr
  · intro e e' he
    obtain ⟨_, _, _, _, _, hr, -⟩ | ⟨e'', hr, hr'⟩ := he
    · cases hr
    · cases hr
      cases hr'
      rfl

/-- What has to be shown of two readings for their handlers to stay together. -/
structure Judges (V : Variation K) (m m' : CostEvent K) (v v' : K) : Prop where
  service : m'.service = m.service
  timestamp : m'.timestamp = m.timestamp
  cpu : m.cpuCores.getD (some 0) = some v
  cpu' : m'.cpuCores.getD (some 0) = some v'
  learns : ∀ p p' now, V.profile metricCpu p p' →
    V.baseline metricCpu (baselineRow (learn p (bucketKey m.timestamp) v) now)
      (baselineRow (learn p' (bucketKey m.timestamp) v') now)
  judges : ∀ p p' tz now, V.profile metricCost p p' →
    V.baseline metricCost (baselineRow ((Reading.mk m tz).judge p) now)
      (baselineRow ((Reading.mk m' tz).judge p') now)
  flags : ∀ p p' tz, V.profile metricCost p p' →
    (Reading.mk m tz).shouldFlag p = (Reading.mk m' tz).shouldFlag p'
  raises : ∀ p p' q q' tz, V.profile metricCost p p' → V.profile metricCpu q q' →
    (Reading.mk m tz).shouldFlag p = true →
    V.Flagged (flagOf m p tz (scoreIn (BucketStats.fromDict (q (bucketKey m.timestamp))) v))
      (flagOf m' p' tz (scoreIn (BucketStats.fromDict (q' (bucketKey m.timestamp))) v'))

theorem coupled_handleCost {m m' : CostEvent K} {v v' : K} (hj : V.Judges m m' v v') :
    (handleCost m).Coupled V.coupling Eq (handleCost m') := by
  rw [handleCost_eq, handleCost_eq, hj.service, hj.timestamp, hj.cpu, hj.cpu']
  refine Prog.Coupled.bind (coupled_scoreAndLearn m.service metricCpu _ hj.learns) ?_ ?_
  · intro zn zn' hz
    obtain ⟨q, q', n, n', hq, hr, hr'⟩ | ⟨e, hr, -⟩ := hz
    · cases hr
      cases hr'
      refine coupled_load _ _ (fun p p' hp => ?_) fun _ => rfl
      refine coupled_shared rfl (fun _ _ hr => hr) (fun tz => ?_) fun _ => rfl
      refine Prog.Coupled.bind (R := Eq) (coupled_save _ _ fun now => hj.judges p p' tz now hp) ?_
        fun _ _ he => he
      intro _ _ _
      rw [← hj.flags p p' tz hp]
      exact .ite (fun hflag => coupled_flagAnomaly (hj.raises p p' q q' tz hp hq hflag)
        (flagOf_allowed ..) (flagOf_allowed ..)) fun _ => .ret rfl
    · cases hr
  · intro e e' he
    obtain ⟨_, _, _, _, _, hr, -⟩ | ⟨e'', hr, hr'⟩ := he
    · cases hr
    · cases hr
      cases hr'
      rfl

end Programs

/-! ## Threads -/

theorem coupled_callback [Scalar K] (consumer : Consumer) {h h' : Py K Unit}
    (hh : h.Coupled V.coupling Eq h') :
    (callback consumer h).Coupled V.coupling Eq (callback consumer h') := by
  have hprocessed : (do
      try
        h
        pure true
      catch _ =>
        pure false : Py K Bool).Coupled V.coupling Eq (do
      try
        h'
        pure true
      catch _ =>
        pure false) := by
    refine Prog.Coupled.tryCatch (Prog.Coupled.bind hh (fun _ _ _ => .ret rfl) ?_)
      (fun _ _ hr => hr) fun _ _ _ => .ret rfl
    intro e e' he
    obtain rfl : e = e' := Except.error.inj he
    rfl
  refine Prog.Coupled.bind hprocessed (fun ok ok' hok => ?_) fun e e' he => ?_
  · obtain rfl : ok = ok' := Except.ok.inj hok
    exact coupled_shared rfl (fun _ _ hr => hr) (fun _ => .ret rfl) fun _ => rfl
  · obtain rfl : e = e' := Except.error.inj he
    rfl

variable [Scalar K]

/-- Readings that belong together are judged alike. -/
def Respected (V : Variation K) : Prop :=
  ∀ m m', V.reading m m' → ∃ v v', V.Judges m m' v v'

omit [Scalar K] in
theorem take_coupled (hw : V.Worlds w w') (consumer : Consumer) (n : Nat) :
    w.take consumer n = none ∧ w'.take consumer n = none
      ∨ ∃ v v', w.take consumer n = some v ∧ w'.take consumer n = some v' ∧ V.Worlds v v' := by
  unfold World.take
  rw [← hw.busy]
  cases w.busy consumer with
  | some _ => exact .inl ⟨rfl, rfl⟩
  | none => exact .inr ⟨_, _, rfl, rfl, { hw with busy := rfl }⟩

/-- **Two runs of the detector stay together.** -/
theorem sound (hV : V.Respected) (cfg : Settings) : V.coupling.Sound (system cfg) where
  exec x hw ho := exec_coupled x hw ho
  env e hw := env_coupled e hw
  start n hw hx := by
    cases hx with
    | traffic m =>
        obtain ⟨h, h'⟩ | ⟨v, v', h, h', hv⟩ := take_coupled hw .behaviourTraffic n
        · exact .inl ⟨by simp [system, begin, h], by simp [system, begin, h']⟩
        · refine .inr ⟨v, v', .traffic m, .traffic m, program cfg (.traffic m),
            program cfg (.traffic m), by simp [system, begin, h], by simp [system, begin, h'], hv,
            .traffic m, ?_⟩
          exact coupled_callback _ (coupled_handleTraffic m)
    | @cost m m' hr =>
        obtain ⟨u, u', hj⟩ := hV m m' hr
        obtain ⟨h, h'⟩ | ⟨v, v', h, h', hv⟩ := take_coupled hw .behaviourCost n
        · exact .inl ⟨by simp [system, begin, h], by simp [system, begin, h']⟩
        · refine .inr ⟨v, v', .cost m, .cost m', program cfg (.cost m), program cfg (.cost m'),
            by simp [system, begin, h], by simp [system, begin, h'], hv, .cost hr, ?_⟩
          exact coupled_callback _ (coupled_handleCost hj)

/-- Two schedules, the second with other readings. -/
abbrev Schedules (V : Variation K) : List (SysAct K) → List (SysAct K) → Prop :=
  List.Forall₂ V.coupling.Acts

theorem run_together (hV : V.Respected) {cfg : Settings} {acts acts' : List (SysAct K)}
    (hacts : V.Schedules acts acts') (hw : V.Worlds w w') {c : SysConfig K}
    (h : (system cfg).steps (fun _ _ => true) ((system cfg).init w) acts = some c) :
    ∃ c', (system cfg).steps (fun _ _ => true) ((system cfg).init w') acts' = some c'
      ∧ V.coupling.Configs c c' := by
  have hinit : V.coupling.Configs ((system cfg).init w) ((system cfg).init w') :=
    ⟨hw, .nil, .nil⟩
  exact (sound hV cfg).steps hinit hacts h

end Variation

end HyperTrace.Proof
