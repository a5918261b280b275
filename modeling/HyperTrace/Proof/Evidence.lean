import HyperTrace.Proof.Dwell
import HyperTrace.Proof.Writes

/-!
# What an anomaly row can show for itself

A row of `anomalies` carries the scores it was flagged for, and copies of what was
made of them: the columns `score`, `confidence`, `baseline_mature` and
`cost_delta_usd_hr`, and the same again in the evidence blob and in the published
message. The decision engine later replaces the blob by the one of the message, with
its own reason added.

So there are three copies, and two writers. They agree in every state: from the blob
of any row one can work out again why it was flagged, and find the readings of the
baselines and of the traffic signal that its scores were taken from. Whatever else goes
by the row's id, an insert or a message, is made of the same flag.
-/

namespace HyperTrace.Behaviour

open Effect

variable {K : Type} [Scalar K]

/-- The bucket of a profile that a reading is scored in. -/
def bucketStats (m : CostEvent K) (p : Profile K) : BucketStats K :=
  BucketStats.fromDict (p (bucketKey m.timestamp))

/-- A flag, by the two profiles the reading was scored in and the traffic signal. -/
structure Weighed (m : CostEvent K) (cpu cost : Profile K) (tz : Option K) (f : Flag K) :
    Prop where
  service : f.service = m.service
  value : f.value = m.costPerHour
  bucket : f.bucket = bucketKey m.timestamp
  resource : f.resource = m.resource
  costZ : f.scores.costZ = (bucketStats m cost).zScore m.costPerHour
  cpuZ : ∃ v, m.cpuCores.getD (some 0) = some v ∧ f.scores.cpuZ = scoreIn (bucketStats m cpu) v
  trafficZ : tz = some f.scores.trafficZ
  qualifies : evaluateCondition f.scores.costZ f.scores.cpuZ tz true = (true, false)
  known : minSamplesForDetection ≤ (bucketStats m cost).n
  costDelta : f.costDelta = m.costPerHour - (bucketStats m cost).mean
  confidence : ∃ n, (bucketStats m cost).n ≤ n
    ∧ f.scoreConfidence = Behaviour.confidence f.scores corroborationNone n
    ∧ f.mature = decide (maturitySamples ≤ n)
  classification : f.classification = .unclassified

/-- What a cost handler has read before it records anything. -/
structure HasRead (m : CostEvent K) (cpu cost : Profile K) (tz : Option K) (h : History K) :
    Prop where
  cpu : (⟨.loadProfile m.service metricCpu, .ok cpu⟩ : SysCall K) ∈ h
  cost : (⟨.loadProfile m.service metricCost, .ok cost⟩ : SysCall K) ∈ h
  trafficZ : (⟨.getTrafficZ m.service, .ok tz⟩ : SysCall K) ∈ h

omit [Scalar K] in
theorem HasRead.append {m : CostEvent K} {cpu cost : Profile K} {tz : Option K} {h : History K}
    (hr : HasRead m cpu cost tz h) (l : History K) : HasRead m cpu cost tz (l ++ h) :=
  ⟨List.mem_append_right _ hr.cpu, List.mem_append_right _ hr.cost,
    List.mem_append_right _ hr.trafficZ⟩

/-- The row records a flag that follows from what was read. -/
def Founded (m : CostEvent K) (h : History K) (row : AnomalyRow K) : Prop :=
  ∃ cpu cost tz f id now, HasRead m cpu cost tz h ∧ Weighed m cpu cost tz f ∧ row = f.row id now

/-- What `handleCost` hands to `flagAnomaly` is weighed. -/
theorem weighed_of_flag {m : CostEvent K} {cpu cost : Profile K} {tz : Option K} {cpuZ : K}
    (hcpu : ∃ v, m.cpuCores.getD (some 0) = some v ∧ cpuZ = scoreIn (bucketStats m cpu) v)
    (hq : Behaviour.qualifies m cost tz = true) :
    let stats := bucketStats m cost
    let mature := decide (stats.n ≥ minSamplesForDetection)
    let costZ := if mature then stats.zScore m.costPerHour else 0
    let suppressed := (FlagState.fromDict (cost flagStateKey)).consecutive
    let learned := if (shouldLearn true suppressed).1 then stats.update m.costPerHour else stats
    Weighed m cpu cost tz
      { service := m.service
        scores := ⟨costZ, cpuZ, tz.getD 0⟩
        scoreConfidence := Behaviour.confidence ⟨costZ, cpuZ, tz.getD 0⟩ corroborationNone learned.n
        classification :=
          if (evaluateCondition costZ cpuZ tz mature).2 then .legitimateTrafficGrowth
          else .unclassified
        mature := decide (learned.n ≥ maturitySamples)
        costDelta := if mature then m.costPerHour - stats.mean else 0
        value := m.costPerHour
        bucket := bucketKey m.timestamp
        resource := m.resource } := by
  have hfst := evaluateCondition_fst m cost tz cpuZ
  obtain ⟨⟨hn, _⟩, htz⟩ : (minSamplesForDetection ≤ (bucketStats m cost).n
      ∧ costZThreshold < (bucketStats m cost).zScore m.costPerHour) ∧ ∃ z, tz = some z := by
    unfold Behaviour.qualifies at hq
    simp only [Bool.and_eq_true, decide_eq_true_eq, Option.any_eq_true] at hq
    obtain ⟨⟨hn, hz⟩, z, htz, _⟩ := hq
    exact ⟨⟨hn, hz⟩, z, htz⟩
  have hmature : decide ((bucketStats m cost).n ≥ minSamplesForDetection) = true :=
    decide_eq_true hn
  obtain ⟨z, rfl⟩ := htz
  have hfst' : (evaluateCondition ((bucketStats m cost).zScore m.costPerHour) cpuZ (some z) true).1
      = true := by
    change (evaluateCondition (if decide ((bucketStats m cost).n ≥ minSamplesForDetection) = true
      then (bucketStats m cost).zScore m.costPerHour else 0) cpuZ (some z)
      (decide ((bucketStats m cost).n ≥ minSamplesForDetection))).1 = _ at hfst
    rwa [hmature, if_pos rfl, hq] at hfst
  dsimp only
  rw [hmature]
  have hsnd := evaluateCondition_exclusive hfst'
  refine ⟨rfl, rfl, rfl, rfl, rfl, hcpu, rfl, Prod.ext hfst' hsnd, hn, rfl, ⟨_, ?_, rfl, rfl⟩, ?_⟩
  · split
    · exact Nat.le_succ _
    · exact le_refl _
  · simp only [↓reduceIte, hsnd, Bool.false_eq_true]

section Obeys

variable {may : History K → Op K → Prop} {h : History K}

/-- The calls that put something on record about an anomaly. -/
def isRecording : Op K → Bool
  | .insertAnomaly _ => true
  | .updateAnomaly _ _ _ => true
  | _ => false

theorem flagAnomaly_founded {f : Flag K} (hfree : ∀ t o, isRecording o = false → may t o)
    (hmay : ∀ id now,
      may (⟨.uuid4, .ok id⟩ :: ⟨.now, .ok now⟩ :: h) (.insertAnomaly (f.row id now))) :
    (flagAnomaly f).Obeys (anyAnswer may) (fun _ _ => True) h := by
  refine obeys_local rfl (hfree _ _ rfl) fun now => ?_
  refine obeys_local rfl (hfree _ _ rfl) fun id => ?_
  refine obeys_call (hmay id now) (fun _ => ?_) fun e => trivial
  exact (publish_obeys fun t _ => hfree _ _ rfl).mono fun _ _ _ => trivial

/-- **`handleCost` only records what follows from what it has read.** -/
theorem handleCost_founded (m : CostEvent K) (hfree : ∀ t o, isRecording o = false → may t o)
    (hmay : ∀ t row, Founded m t row → may t (.insertAnomaly row)) :
    (handleCost m).Obeys (anyAnswer may) (fun _ _ => True) [] := by
  refine Prog.Obeys.bind (scoreAndLearn_obeys (hfree _ _ rfl) (fun _ => hfree _ _ rfl)
    (fun _ _ _ => hfree _ _ rfl) _ _) ?_ fun _ _ _ => trivial
  intro t scored hs
  obtain ⟨cpu, nowc, rowc, v, hv, hz, ht⟩ := hs.of_ok
  obtain ⟨cpuZ, n⟩ := scored
  have hcpu : (⟨.loadProfile m.service metricCpu, .ok cpu⟩ : SysCall K) ∈ t ++ [] := by
    rw [ht]
    exact .tail _ (.tail _ (.head _))
  generalize t ++ [] = t₀ at hcpu
  refine obeys_call (hfree _ _ rfl) (fun (p : Profile K) => ?_) fun e => trivial
  refine obeys_local rfl (hfree _ _ rfl) fun (tz : Option K) => ?_
  have hread : HasRead m cpu p tz (⟨.getTrafficZ m.service, .ok tz⟩ ::
      ⟨.loadProfile m.service metricCost, .ok p⟩ :: t₀) :=
    ⟨.tail _ (.tail _ hcpu), .tail _ (.head _), .head _⟩
  have hqual := evaluateCondition_fst m p tz cpuZ
  dsimp only at hqual ⊢
  rw [hqual]
  refine Prog.Obeys.bind (R := fun _ _ => True) ?_ ?_ fun _ _ _ => trivial
  · exact saveProfile_obeys (hfree _ _ rfl) fun _ _ _ => ⟨hfree _ _ rfl, fun _ => trivial⟩
  · intro t' _ _
    refine .ite (fun hflag => ?_) fun _ => trivial
    refine flagAnomaly_founded hfree fun id now => hmay _ _ ?_
    rw [Bool.and_eq_true] at hflag
    refine ⟨cpu, p, tz, _, id, now, (hread.append t').append [_, _], ?_, rfl⟩
    have hscored : ∃ v, m.cpuCores.getD (some 0) = some v ∧ cpuZ = scoreIn (bucketStats m cpu) v :=
      ⟨v, hv, hz⟩
    have hw := weighed_of_flag hscored hflag.1
    rw [hflag.1]
    exact hw

end Obeys

end HyperTrace.Behaviour

namespace HyperTrace.Decision

open Effect Behaviour

variable {K : Type} [Scalar K]

/-- Which reason goes with which verdict. -/
inductive Reasoned : AnomalyClassification → ClassificationReason → Prop where
  | growth : Reasoned .legitimateTrafficGrowth .trafficExplains
  | abuse (rule : String) : Reasoned .suspectedAbuse (.securityRule rule)
  | bug : Reasoned .likelyBugFromDeployment .recentDeployment
  | waste : Reasoned .misconfigurationOrWaste .nothing

variable {may : History K → Op K → Prop} {h : History K}

omit [Scalar K] in
theorem classify_reasoned {cfg : Config} {service : String} {v : Option AnomalyClassification}
    (hfree : ∀ t o, isRecording o = false → may t o) :
    (classify cfg service v).Obeys (anyAnswer may)
      (Prog.post (fun _ x => Reasoned x.1 x.2) fun _ _ => True) h := by
  unfold classify
  refine .ite (fun _ => .growth) fun _ => ?_
  refine Prog.Obeys.bind (R := fun _ _ => True) ?_ ?_ fun _ _ _ => trivial
  · unfold recentSecuritySignal
    refine obeys_call (hfree _ _ rfl) (fun entry => ?_) fun e => trivial
    split
    · exact trivial
    · refine obeys_call (hfree _ _ rfl) (fun now => ?_) fun e => trivial
      split <;> exact trivial
  · intro t rule _
    split
    · exact .abuse _
    · refine Prog.Obeys.bind (R := fun _ _ => True) ?_ ?_ fun _ _ _ => trivial
      · unfold recentDeployment
        refine obeys_call (hfree _ _ rfl) (fun last => ?_) fun e => trivial
        split
        · exact trivial
        · exact obeys_call (hfree _ _ rfl) (fun now => trivial) fun e => trivial
      · intro t' recent _
        split
        · exact .bug
        · exact .waste

omit [Scalar K] in
theorem recordAction_free {id : Uuid} {action : RemediationAction} {res : ActionResult}
    {service mode : String} (hfree : ∀ t o, isRecording o = false → may t o) :
    (recordAction id action res service mode).Obeys (anyAnswer may) (fun _ _ => True) h := by
  refine obeys_call (hfree _ _ rfl) (fun _ => ?_) fun e => trivial
  refine obeys_call (hfree _ _ rfl) (fun _ => ?_) fun e => trivial
  exact obeys_call (hfree _ _ rfl) (fun _ => trivial) fun e => trivial

/-- What follows the verdict puts nothing on record about the anomaly. -/
theorem decideOn_free {cfg : Config} {m : AnomalyMessage K}
    (hfree : ∀ t o, isRecording o = false → may t o)
    (found : Option (List (String × Json K) × String)) :
    (decideOn cfg m found).Obeys (anyAnswer may) (fun _ _ => True) h := by
  have hrecord : ∀ {t action res mode}, ((recordAction m.id action res m.service mode) >>=
      fun _ => pure ()).Obeys (anyAnswer may) (fun _ _ => True) t := fun {t action res mode} =>
    Prog.Obeys.bind (recordAction_free hfree) (fun _ _ _ => trivial) fun _ _ _ => trivial
  cases found with
  | none => exact trivial
  | some policy =>
      obtain ⟨ruleDsl, action⟩ := policy
      refine obeys_lift (fun act _ => ?_) fun e _ => trivial
      refine .ite (fun _ => hrecord) fun _ => ?_
      refine .ite (fun _ => hrecord) fun _ => ?_
      refine .ite (fun _ => hrecord) fun _ => ?_
      refine .ite (fun _ => hrecord) fun _ => ?_
      refine Prog.Obeys.bind (recordAction_free hfree) (fun t id _ => ?_) fun _ _ _ => trivial
      exact (publish_obeys fun _ _ => hfree _ _ rfl).mono fun _ _ _ => trivial

/-- **`handleAnomaly` replaces the evidence by that of its message, and says why.** -/
theorem handleAnomaly_reasoned (cfg : Config) (m : AnomalyMessage K)
    (hfree : ∀ t o, isRecording o = false → may t o)
    (hmay : ∀ t cl reason, Reasoned cl reason →
      may t (.updateAnomaly m.id cl { m.evidence with classificationReason := some reason })) :
    (handleAnomaly cfg m).Obeys (anyAnswer may) (fun _ _ => True) [] := by
  rw [handleAnomaly_eq]
  refine Prog.Obeys.bind (classify_reasoned hfree) ?_ fun _ _ _ => trivial
  intro t x hreasoned
  obtain ⟨cl, reason⟩ := x
  refine obeys_call (hmay _ cl reason hreasoned) (fun _ => ?_) fun e => trivial
  refine .ite (fun _ => trivial) fun _ => ?_
  refine Prog.Obeys.bind (R := fun _ _ => True) ?_ (fun t' found _ => decideOn_free hfree found)
    fun _ _ _ => trivial
  refine obeys_call (hfree _ _ rfl) (fun rows => ?_) fun e => trivial
  exact obeys_lift (fun _ _ => trivial) fun _ _ => trivial

end HyperTrace.Decision

namespace HyperTrace.Proof

open HyperTrace Effect Behaviour Decision

variable {K : Type} [Scalar K]

variable {cfg : Settings} {P : SysConfig K → SysAct K → Prop} {w : World K} {c : SysConfig K}

/-- **A discipline that every program keeps to holds of every recorded call.** -/
theorem may_of_programs {may : Tag K → History K → Op K → Prop}
    (hprog : ∀ tag, (program cfg tag).Obeys (anyAnswer (may tag)) (fun _ _ => True) [])
    (h : (system cfg).Run P w c) {e : SysEvent K} {pre : List (SysEvent K)}
    (he : e :: pre <:+ c.trace) : may e.tag (hist pre e.tid) e.op := by
  refine System.Run.may (D := fun tag => anyAnswer (may tag)) (Q := fun _ _ _ => True) ?_ ?_ h he
  · intro c x w' tag p _ _ hs
    obtain ⟨_, rfl⟩ := start_starts hs
    exact hprog tag
  · intro c i x tag o k _ _ _ _ ho
    obtain ⟨a, ha⟩ := exec_local (w := c.world) (x := x) ho
    dsimp only [system]
    rw [ha]
    rfl

/-! ## Who puts what on record -/

/-- What a thread may put on record about an anomaly. -/
def MayRecord (tag : Tag K) (h : History K) : Op K → Prop
  | .insertAnomaly row => ∃ m, tag = .cost m ∧ Founded m h row
  | .updateAnomaly id cl ev => ∃ ma reason, tag = .anomaly ma ∧ id = ma.id ∧ Reasoned cl reason
      ∧ ev = { ma.evidence with classificationReason := some reason }
  | _ => True

theorem program_records (cfg : Settings) (tag : Tag K) :
    (program cfg tag).Obeys (anyAnswer (MayRecord tag)) (fun _ _ => True) [] := by
  have hfree : ∀ t o, isRecording o = false → MayRecord tag t o := by
    intro t o ho
    cases o <;> first | exact trivial | cases ho
  -- the others put nothing on record
  have hothers : (∀ m, tag ≠ .cost m) → (∀ ma, tag ≠ .anomaly ma) →
      (program cfg tag).Obeys (anyAnswer (MayRecord tag)) (fun _ _ => True) [] := by
    intro hcost hanomaly
    have hob : (program cfg tag).Obeys (anyAnswer (MayRecord tag)) (Ends cfg tag) [] := by
      refine (program_obeys cfg tag).weaken (fun t o ho => ?_) fun _ _ _ hg => hg
      cases o with
      | insertAnomaly row =>
          obtain ⟨m, _, _, _, _, htag, _⟩ := anomaly_inserted_by ho
          exact absurd htag (hcost m)
      | updateAnomaly id cl ev =>
          obtain ⟨ma, htag, _⟩ := anomaly_updated_by ho
          exact absurd htag (hanomaly ma)
      | _ => exact trivial
    exact hob.mono fun _ _ _ => trivial
  cases tag with
  | cost m =>
      refine (callback_obeys (handleCost_founded m hfree fun t row hrow => ⟨m, rfl, hrow⟩)
        fun t r _ => hfree _ _ rfl).mono fun _ _ _ => trivial
  | anomaly ma =>
      refine (callback_obeys (handleAnomaly_reasoned cfg.decision ma hfree
        fun t cl reason hr => ⟨ma, reason, rfl, rfl, hr, rfl⟩)
        fun t r _ => hfree _ _ rfl).mono fun _ _ _ => trivial
  | _ => exact hothers (by intro m htag; cases htag) (by intro ma htag; cases htag)

theorem record_of_suffix (h : (system cfg).Run P w c) {e : SysEvent K} {pre : List (SysEvent K)}
    (he : e :: pre <:+ c.trace) : MayRecord e.tag (hist pre e.tid) e.op :=
  may_of_programs (program_records cfg) h he

/-- What is published is the message of a flag whose row was inserted before. -/
theorem insert_of_published (h : (system cfg).Run P w c) {e : SysEvent K} (he : e ∈ c.trace)
    {ma : AnomalyMessage K} (hop : e.op = .basicPublish (.anomaly ma)) :
    ∃ ins ∈ c.trace, ∃ (f : Behaviour.Flag K) (id : Uuid) (now : Time),
      ins.call = ⟨.insertAnomaly (f.row id now), .ok ()⟩ ∧ ma = f.message id now := by
  obtain ⟨pre, hpre, _⟩ := h.origin_of_mem he
  have hcalls := calls_of_suffix h hpre
  rw [hop] at hcalls
  obtain ⟨m, f, id, now, t, _, _, rfl, hatt⟩ := anomaly_published_by hcalls
  have hsuf : pre <:+ c.trace := (List.suffix_cons e pre).trans hpre
  obtain ⟨ins, pre', x, hins, _, hcall, _⟩ := answered h hsuf (hatt.mem (List.mem_cons_self ..))
  exact ⟨ins, (hins.trans hsuf).subset (List.mem_cons_self ..), f, id, now, hcall, rfl⟩

/-- What a message says was inserted before it was published. -/
theorem insert_of_message (h : (system cfg).Run P (World.empty K) c) {ma : AnomalyMessage K}
    (hm : Flagged c.world ma) :
    ∃ ins ∈ c.trace, ∃ (f : Behaviour.Flag K) (id : Uuid) (now : Time),
      ins.call = ⟨.insertAnomaly (f.row id now), .ok ()⟩ ∧ ma = f.message id now := by
  rcases anomaly_published h hm with hm | ⟨e, pre, he, hop⟩
  · rcases hm with hm | hm <;> cases hm
  · exact insert_of_published h (he.subset (List.mem_cons_self ..)) hop

/-- The detector leaves the verdict out. -/
theorem unjudged_of_insert (h : (system cfg).Run P w c) {ins : SysEvent K} (hins : ins ∈ c.trace)
    {row : AnomalyRow K} (hop : ins.op = .insertAnomaly row) :
    row.classification = .unclassified ∧ row.evidence.classificationReason = none := by
  obtain ⟨pre, hpre, _⟩ := h.origin_of_mem hins
  have hmay := record_of_suffix h hpre
  rw [hop] at hmay
  obtain ⟨m, _, _, _, _, f, id, now, _, hf, rfl⟩ := hmay
  exact ⟨hf.classification, rfl⟩

/-- An insert that was answered has put its row into the table. -/
theorem inserted_of_answered (h : (system cfg).Run P w c) {ins : SysEvent K} (hins : ins ∈ c.trace)
    {row : AnomalyRow K} (hcall : ins.call = ⟨.insertAnomaly row, .ok ()⟩) :
    row ∈ ins.after.anomalies := by
  obtain ⟨pre, hpre, _⟩ := h.origin_of_mem hins
  obtain ⟨x, hx⟩ := exec_of_call h hpre hcall
  have htable := exec_insertAnomaly (congrArg Prod.fst hx)
  rw [hx] at htable
  exact htable ▸ List.mem_append_right _ (List.mem_singleton_self _)

/-- Its id is there ever since. -/
theorem recorded_of_answered (h : (system cfg).Run P w c) {ins : SysEvent K} (hins : ins ∈ c.trace)
    {row : AnomalyRow K} (hcall : ins.call = ⟨.insertAnomaly row, .ok ()⟩) :
    ∃ a ∈ c.world.anomalies, a.id = row.id := by
  obtain ⟨a, ha, hid, _⟩ := (h.le_of_mem (grows cfg) hins).anomalies row
    (inserted_of_answered h hins hcall)
  exact ⟨a, ha, hid⟩

/-! ## The copies agree -/

/-- The row is the other one, but for the verdict and the reason for it. -/
def SameRow (a row : AnomalyRow K) : Prop :=
  a = { row with
    classification := a.classification
    evidence := { row.evidence with classificationReason := a.evidence.classificationReason } }

omit [Scalar K] in
theorem SameRow.refl (a : AnomalyRow K) : SameRow a a := rfl

omit [Scalar K] in
/-- The evidence of one copy may be replaced by that of another. -/
theorem SameRow.replace {a row row' : AnomalyRow K} (h : SameRow a row) (h' : SameRow a row')
    (cl : AnomalyClassification) (reason : Option ClassificationReason) :
    SameRow { a with
      classification := cl
      evidence := { row'.evidence with classificationReason := reason } } row := by
  have hev := congrArg AnomalyRow.evidence h
  have hev' := congrArg AnomalyRow.evidence h'
  unfold SameRow at h ⊢
  rw [h]
  dsimp only at hev hev' ⊢
  have hsame : { row'.evidence with classificationReason := reason }
      = { row.evidence with classificationReason := reason } := by
    have := congrArg (fun e : Evidence K => { e with classificationReason := reason })
      (hev'.symm.trans hev)
    exact this
  rw [hsame]

/-- The row as it was before there was a verdict. -/
def unjudged (a : AnomalyRow K) : AnomalyRow K :=
  { a with
    classification := .unclassified
    evidence := { a.evidence with classificationReason := none } }

omit [Scalar K] in
theorem SameRow.unjudged {a row : AnomalyRow K} (h : SameRow a row) :
    unjudged a = unjudged row := by
  rw [h]
  rfl

omit [Scalar K] in
theorem unjudged_eq {row : AnomalyRow K} (h : row.classification = .unclassified
    ∧ row.evidence.classificationReason = none) : unjudged row = row := by
  rw [unjudged, ← h.1, ← h.2]

/-- The call a row has its verdict from: the insert, which leaves it out, or the decision
engine's update, which says why. -/
inductive Given (a : AnomalyRow K) : Op K → Prop where
  | insert : a.classification = .unclassified → a.evidence.classificationReason = none →
      Given a (.insertAnomaly a)
  | update (reason : ClassificationReason) : a.evidence.classificationReason = some reason →
      Reasoned a.classification reason →
      Given a (.updateAnomaly a.id a.classification a.evidence)

/-- The row was in the table like this, right after it was given its verdict. -/
def Told (tr : List (SysEvent K)) (a : AnomalyRow K) : Prop :=
  ∃ e ∈ tr, a ∈ e.after.anomalies ∧ Given a e.op

omit [Scalar K] in
theorem Told.mono {tr tr' : List (SysEvent K)} (hsub : tr ⊆ tr') {a : AnomalyRow K}
    (h : Told tr a) : Told tr' a := by
  obtain ⟨e, he, hgiven⟩ := h
  exact ⟨e, hsub he, hgiven⟩

/-- The table, and what the trace has about its rows. -/
structure OnRecord (v : World K) (tr : List (SysEvent K)) : Prop where
  inserted : ∀ a ∈ v.anomalies, ∃ ins ∈ tr, ∃ row, ins.op = .insertAnomaly row ∧ row.id = a.id
    ∧ SameRow a row
  agrees : ∀ a ∈ v.anomalies, ∀ ins ∈ tr, ∀ row, ins.call = ⟨.insertAnomaly row, .ok ()⟩ →
    row.id = a.id → SameRow a row
  told : ∀ a ∈ v.anomalies, Told tr a

omit [Scalar K] in
theorem onRecord_init : OnRecord (World.empty K) [] where
  inserted a ha := by cases ha
  agrees a ha := by cases ha
  told a ha := by cases ha

omit [Scalar K] in
theorem OnRecord.congr {v v' : World K} {tr : List (SysEvent K)} (ih : OnRecord v tr)
    (hsame : v'.anomalies = v.anomalies) : OnRecord v' tr :=
  ⟨fun a ha => ih.inserted a (hsame ▸ ha), fun a ha => ih.agrees a (hsame ▸ ha),
    fun a ha => ih.told a (hsame ▸ ha)⟩

omit [Scalar K] in
/-- A call that is no answered insert adds nothing to be compared. -/
theorem OnRecord.other {v : World K} {tr : List (SysEvent K)} {e : SysEvent K}
    (ih : OnRecord v tr) (hnone : ∀ row, e.call ≠ ⟨.insertAnomaly row, .ok ()⟩) :
    OnRecord v (e :: tr) where
  inserted a ha := by
    obtain ⟨ins, hins, hrow⟩ := ih.inserted a ha
    exact ⟨ins, List.mem_cons_of_mem _ hins, hrow⟩
  agrees a ha ins hins row hcall hid := by
    rcases List.mem_cons.mp hins with rfl | hins
    · exact absurd hcall (hnone row)
    · exact ih.agrees a ha ins hins row hcall hid
  told a ha := (ih.told a ha).mono (List.subset_cons_self ..)

omit [Scalar K] in
/-- A new row, without a verdict: its id is nobody else's. -/
theorem OnRecord.insert {tr : List (SysEvent K)} {e : SysEvent K} (ih : OnRecord e.before tr)
    {row : AnomalyRow K} (hop : e.op = .insertAnomaly row)
    (happ : e.after.anomalies = e.before.anomalies ++ [row])
    (hnew : ∀ a ∈ e.before.anomalies, a.id ≠ row.id)
    (hfresh : ∀ ins ∈ tr, ∀ row', ins.call = ⟨.insertAnomaly row', .ok ()⟩ → row'.id ≠ row.id)
    (hverdict : Given row e.op) : OnRecord e.after (e :: tr) := by
  have hmem : ∀ {a}, a ∈ e.after.anomalies → a ∈ e.before.anomalies ∨ a = row := by
    intro a ha
    rw [happ] at ha
    simpa using ha
  refine ⟨fun a ha => ?_, fun a ha ins hins row' hcall hid => ?_, fun a ha => ?_⟩
  · rcases hmem ha with ha | rfl
    · obtain ⟨ins, hins, hrow⟩ := ih.inserted a ha
      exact ⟨ins, List.mem_cons_of_mem _ hins, hrow⟩
    · exact ⟨e, List.mem_cons_self .., a, hop, rfl, .refl a⟩
  · rcases List.mem_cons.mp hins with rfl | hins
    · obtain rfl : row = row' := Op.insertAnomaly.inj (hop.symm.trans (congrArg Call.op hcall))
      rcases hmem ha with ha | rfl
      · exact absurd hid.symm (hnew a ha)
      · exact .refl _
    · rcases hmem ha with ha | rfl
      · exact ih.agrees a ha ins hins row' hcall hid
      · exact absurd hid (hfresh ins hins row' hcall)
  · rcases hmem ha with hb | rfl
    · exact (ih.told a hb).mono (List.subset_cons_self ..)
    · exact ⟨e, List.mem_cons_self .., ha, hverdict⟩

omit [Scalar K] in
/-- A verdict: the evidence it comes with is that of an insert. -/
theorem OnRecord.judge {tr : List (SysEvent K)} {e ins : SysEvent K} (ih : OnRecord e.before tr)
    {row : AnomalyRow K} {cl : AnomalyClassification} {reason : ClassificationReason}
    (hins : ins ∈ tr) (hcall : ins.call = ⟨.insertAnomaly row, .ok ()⟩)
    (hop : e.op = .updateAnomaly row.id cl
      { row.evidence with classificationReason := some reason })
    (hupd : e.after = e.before.updateAnomaly row.id cl
      { row.evidence with classificationReason := some reason })
    (hreasoned : Reasoned cl reason) : OnRecord e.after (e :: tr) := by
  have hmem : ∀ {a}, a ∈ e.after.anomalies → ∃ b ∈ e.before.anomalies,
      a = b ∨ b.id = row.id ∧ SameRow b row ∧ a = { b with
        classification := cl
        evidence := { row.evidence with classificationReason := some reason } } := by
    intro a ha
    rw [hupd] at ha
    obtain ⟨b, hb, rfl⟩ := List.mem_map.mp ha
    refine ⟨b, hb, ?_⟩
    split
    · rename_i hid
      exact Or.inr ⟨hid, ih.agrees b hb ins hins row hcall hid.symm, rfl⟩
    · exact Or.inl rfl
  refine ⟨fun a ha => ?_, fun a ha ins' hins' row' hcall' hid => ?_, fun a ha => ?_⟩
  · obtain ⟨b, hb, rfl | ⟨_, hagrees, rfl⟩⟩ := hmem ha
    · obtain ⟨ins', hins', hrow⟩ := ih.inserted a hb
      exact ⟨ins', List.mem_cons_of_mem _ hins', hrow⟩
    · obtain ⟨ins', hins', row', hop', hid, hrow⟩ := ih.inserted b hb
      exact ⟨ins', List.mem_cons_of_mem _ hins', row', hop', hid, hrow.replace hagrees ..⟩
  · rcases List.mem_cons.mp hins' with rfl | hins'
    · cases hop.symm.trans (congrArg Call.op hcall')
    · obtain ⟨b, hb, rfl | ⟨_, hagrees, rfl⟩⟩ := hmem ha
      · exact ih.agrees a hb ins' hins' row' hcall' hid
      · exact (ih.agrees b hb ins' hins' row' hcall' hid).replace hagrees ..
  · obtain ⟨b, hb, rfl | ⟨hid, _, rfl⟩⟩ := hmem ha
    · exact (ih.told a hb).mono (List.subset_cons_self ..)
    · refine ⟨e, List.mem_cons_self .., ha, ?_⟩
      rw [hop, ← hid]
      exact .update reason rfl hreasoned

/-- **No call takes the copies apart.** -/
theorem onRecord_step {i : Nat} {x : Choice} {tag : Tag K} {o : Op K}
    {k : Except Err o.Res → Py K Reply} (h : (system cfg).Run P (World.empty K) c)
    (ht : c.threads[i]? = some ⟨tag, .op o k⟩)
    (hmay : MayRecord tag (hist c.trace i) o) (ih : OnRecord c.world c.trace) :
    OnRecord (exec c.world o x).2
      (⟨i, tag, o, (exec c.world o x).1, c.world, (exec c.world o x).2⟩ :: c.trace) := by
  rcases (exec_changes c.world o x).anomalies with hsame | ⟨row, rfl, hnew, happ⟩ |
    ⟨id, cl, ev, rfl, hupd⟩
  -- nothing changes, so no insert was answered
  · refine (ih.congr hsame).other fun row hcall => ?_
    cases congrArg Call.op hcall
    have hok : (exec c.world (.insertAnomaly row) x).1 = .ok () := by
      simpa [Event.call] using hcall
    have hlen := congrArg List.length (hsame.symm.trans (exec_insertAnomaly hok))
    simp at hlen
  · obtain ⟨m, _, _, _, _, f, id, now, _, hf, rfl⟩ := hmay
    refine OnRecord.insert (e := ⟨i, _, .insertAnomaly _, _, c.world, _⟩) ih rfl happ hnew
      (fun ins hins row' hcall hid => ?_) (.insert hf.classification rfl)
    obtain ⟨b, hb, hbid⟩ := recorded_of_answered h hins hcall
    exact hnew b hb (hbid.trans hid)
  · obtain ⟨ma, reason, rfl, rfl, hreasoned, rfl⟩ := hmay
    obtain ⟨ins, hins, f, id, now, hcall, rfl⟩ :=
      insert_of_message h ((delivered_of_thread h ht).2 ma rfl)
    exact OnRecord.judge (e := ⟨i, _, .updateAnomaly _ _ _, _, c.world, _⟩) ih hins hcall rfl hupd
      hreasoned

theorem onRecord_reachable (h : (system cfg).Run P (World.empty K) c) :
    OnRecord c.world c.trace := by
  refine h.keeps (I := OnRecord) onRecord_init ?_ ?_ ?_
  · intro c x w' tag p hst ih
    exact ih.congr (start_starts hst).1.anomalies
  · intro c i x tag o k hr _ ht hr' ih
    exact onRecord_step hr ht (record_of_suffix hr' (List.suffix_refl _)) ih
  · intro c v ih
    refine ih.congr ?_
    cases v <;> rfl

/-! ## A row can be worked out again -/

/-- The thread was told these three things. -/
def ToldOf (c : SysConfig K) (i : Nat) (m : CostEvent K) (cpu cost : Profile K) (tz : Option K) :
    Prop :=
  ∃ e₁ ∈ c.trace, ∃ e₂ ∈ c.trace, ∃ e₃ ∈ c.trace,
    e₁.tag = .cost m ∧ e₁.tid = i ∧ e₂.tid = i ∧ e₃.tid = i
      ∧ profileOf e₁.before m.service metricCpu = cpu
      ∧ profileOf e₂.before m.service metricCost = cost
      ∧ e₃.before.trafficZ m.service = tz

/-- What the row says follows from its own evidence. -/
structure Checks (tr : List (SysEvent K)) (a : AnomalyRow K) : Prop where
  score : a.score = a.evidence.scores.peak
  qualifies : evaluateCondition a.evidence.scores.costZ a.evidence.scores.cpuZ
    (some a.evidence.scores.trafficZ) true = (true, false)
  confidence : ∃ n, minSamplesForDetection ≤ n
    ∧ a.confidence = Behaviour.confidence a.evidence.scores corroborationNone n
    ∧ a.baselineMature = decide (maturitySamples ≤ n)
  copies : a.evidence.confidence = some a.confidence
    ∧ a.evidence.baselineMature = a.baselineMature ∧ a.evidence.costDeltaUsdHr = a.costDeltaUsdHr
  told : Told tr a

theorem checks_of_weighed {tr : List (SysEvent K)} {m : CostEvent K} {cpu cost : Profile K}
    {tz : Option K} {f : Behaviour.Flag K} {a : AnomalyRow K} {id : Uuid} {now : Time}
    (hf : Weighed m cpu cost tz f) (ha : SameRow a (f.row id now)) (htold : Told tr a) :
    Checks tr a := by
  obtain ⟨n, hn, hconf, hmature⟩ := hf.confidence
  have hq := hf.qualifies
  rw [hf.trafficZ] at hq
  unfold SameRow at ha
  generalize a.classification = cl at ha
  generalize a.evidence.classificationReason = reason at ha
  subst ha
  exact ⟨rfl, hq, ⟨n, hf.known.trans hn, hconf, hmature⟩, ⟨rfl, rfl, rfl⟩, htold⟩

/-- Whatever goes by the id, sent or on record, is made of one flag. -/
structure Copies (c : SysConfig K) (f : Behaviour.Flag K) (id : Uuid) (now : Time) : Prop where
  inserted : ∀ ins ∈ c.trace, ∀ row, ins.call = ⟨.insertAnomaly row, .ok ()⟩ → row.id = id →
    row = f.row id now
  published : ∀ e ∈ c.trace, ∀ ma, e.op = .basicPublish (.anomaly ma) → ma.id = id →
    ma = f.message id now
  flagged : ∀ ma, Flagged c.world ma → ma.id = id → ma = f.message id now

/-- The message says nothing that the row does not. -/
theorem message_of_row {f g : Behaviour.Flag K} {id : Uuid} {now now' : Time}
    (h : g.row id now' = f.row id now) : g.message id now' = f.message id now :=
  congrArg (fun row : AnomalyRow K => AnomalyMessage.mk row.id row.service row.score
    (some row.classification) row.evidence row.status row.createdAt (some row.confidence)) h

theorem copies_of_row (h : (system cfg).Run P (World.empty K) c) {a : AnomalyRow K}
    (ha : a ∈ c.world.anomalies) {f : Behaviour.Flag K} {now : Time}
    (hrow : SameRow a (f.row a.id now))
    (hunjudged : (f.row a.id now).classification = .unclassified
      ∧ (f.row a.id now).evidence.classificationReason = none) : Copies c f a.id now := by
  have hinserted : ∀ ins ∈ c.trace, ∀ row, ins.call = ⟨.insertAnomaly row, .ok ()⟩ →
      row.id = a.id → row = f.row a.id now := by
    intro ins hins row hcall hid
    have hagrees := (onRecord_reachable h).agrees a ha ins hins row hcall hid
    have hrow' := unjudged_eq (unjudged_of_insert h hins (congrArg Call.op hcall))
    rw [← hrow', ← unjudged_eq hunjudged, ← hagrees.unjudged, hrow.unjudged]
  -- a message has its insert, and that is the one of the row
  have hmessage : ∀ {ma : AnomalyMessage K}, (∃ ins ∈ c.trace, ∃ (g : Behaviour.Flag K)
      (id : Uuid) (now' : Time), ins.call = ⟨.insertAnomaly (g.row id now'), .ok ()⟩
        ∧ ma = g.message id now') → ma.id = a.id → ma = f.message a.id now := by
    rintro ma ⟨ins, hins, g, id, now', hcall, rfl⟩ hid
    obtain rfl : id = a.id := hid
    exact message_of_row (hinserted ins hins _ hcall rfl)
  exact ⟨hinserted, fun e he ma hop => hmessage (insert_of_published h he hop), fun ma hm =>
    hmessage (insert_of_message h hm)⟩

/--
**Every anomaly on record can be worked out again.**

In every reachable state, whatever failed and however the handlers were interleaved,
also after the decision engine has replaced its evidence: what a row says follows
from the scores it carries, and these are those of one reading against the two
baselines and the traffic signal that the thread which inserted it was given. Every
insert that was answered and every message with the row's id says the same.
-/
theorem anomaly_evidence (h : (system cfg).Run P (World.empty K) c) {a : AnomalyRow K}
    (ha : a ∈ c.world.anomalies) :
    Checks c.trace a ∧ ∃ m cpu cost tz f now, Weighed m cpu cost tz f
      ∧ SameRow a (f.row a.id now) ∧ Copies c f a.id now
      ∧ ∃ ins ∈ c.trace, ins.op = .insertAnomaly (f.row a.id now)
        ∧ ToldOf c ins.tid m cpu cost tz := by
  have hrec := onRecord_reachable h
  obtain ⟨ins, hins, row, hop, hid, hagrees⟩ := hrec.inserted a ha
  have hunjudged := unjudged_of_insert h hins hop
  obtain ⟨pre, hpre, _⟩ := h.origin_of_mem hins
  have hmay := record_of_suffix h hpre
  rw [hop] at hmay
  obtain ⟨m, htag, cpu, cost, tz, f, id, now, hread, hf, rfl⟩ := hmay
  obtain rfl : id = a.id := hid
  refine ⟨checks_of_weighed hf hagrees (hrec.told a ha), m, cpu, cost, tz, f, now, hf, hagrees,
    copies_of_row h ha hagrees hunjudged, ins, hins, hop, ?_⟩
  -- the three answers are events of the thread
  have hsuf : pre <:+ c.trace := (List.suffix_cons ins pre).trans hpre
  obtain ⟨e₁, _, x₁, he₁, hi₁, _, hx₁⟩ := answered h hsuf hread.cpu
  obtain ⟨e₂, _, x₂, he₂, hi₂, _, hx₂⟩ := answered h hsuf hread.cost
  obtain ⟨e₃, _, x₃, he₃, hi₃, _, hx₃⟩ := answered h hsuf hread.trafficZ
  have hmem : ∀ {e : SysEvent K} {p}, e :: p <:+ pre → e ∈ c.trace :=
    fun he => (he.trans hsuf).subset (List.mem_cons_self ..)
  refine ⟨e₁, hmem he₁, e₂, hmem he₂, e₃, hmem he₃, ?_, hi₁, hi₂, hi₃, ?_, ?_, ?_⟩
  · rw [← htag]
    exact h.tag_eq (hmem he₁) hins hi₁
  · obtain ⟨_, hp⟩ := faulty_ok (congrArg Prod.fst hx₁)
    exact Except.ok.inj hp
  · obtain ⟨_, hp⟩ := faulty_ok (congrArg Prod.fst hx₂)
    exact Except.ok.inj hp
  · exact Except.ok.inj (congrArg Prod.fst hx₃)

open Scenario in
/-- The anomaly of the scenario, after the decision engine has given its verdict on the message. -/
theorem anomaly_evidence_pending :
    ∃ (c : SysConfig ℚ) (a : AnomalyRow ℚ) (ma : AnomalyMessage ℚ), a ∈ c.world.anomalies
      ∧ a.classification = .misconfigurationOrWaste ∧ Checks c.trace a
      ∧ Flagged c.world ma ∧ ma.id = a.id
      ∧ ∃ (f : Behaviour.Flag ℚ) (now : Time), SameRow a (f.row a.id now)
        ∧ ma = f.message a.id now := by
  obtain ⟨c, hrun, hcheck⟩ := System.exists_run (S := system settings) (w := World.empty ℚ)
    (p := fun _ _ => true) (l := pending)
    (q := fun c => c.world.anomalies.any fun a => a.classification = .misconfigurationOrWaste
      ∧ ∃ ma ∈ c.world.anomalyDelivered, ma.id = a.id)
    (by decide +kernel)
  simp only [List.any_eq_true, decide_eq_true_eq] at hcheck
  obtain ⟨a, ha, hclass, ma, hma, hid⟩ := hcheck
  obtain ⟨hchecks, _, _, _, _, f, now, _, hrow, hcopies, _⟩ := anomaly_evidence hrun ha
  exact ⟨c, a, ma, ha, hclass, hchecks, Or.inr hma, hid, f, now, hrow,
    hcopies.flagged ma (Or.inr hma) hid⟩

end HyperTrace.Proof
