import HyperTrace.Effect.Interleave
import HyperTrace.Proof.Surge

/-!
# The two threads of the detector

`main` consumes the traffic queue on one thread and the cost queue on another. A
handler loads a profile, changes it and saves it whole, in two transactions and
without a lock, so between the two anything may be lost. Nothing is: the profiles of
the traffic are loaded and saved by the one thread, those of the CPU and the cost by
the other, and what they share is `_traffic_z`. Each handler touches it in one call
only, and that call is where its message takes effect.

The threads read the clock each for itself, so the times that are stored belong to the
calls, whatever lies between them.
-/

namespace HyperTrace.Behaviour

open Effect

variable {K : Type}

/-! ## Calls that may change places -/

/-- When a call is made, and what becomes of it. -/
structure Moment where
  clock : Time
  choice : Choice

/-- A call, and the clock as its thread reads it. -/
def execAt [Scalar K] (t : Moment) (w : World K) : (o : Op K) → Except Err o.Res × World K
  | .now => (.ok t.clock, w)
  | o => exec w o t.choice

/-- The world, and how many calls either thread has made. -/
structure Meeting (K : Type) where
  world : World K
  made : Bool → Nat

/-- The next call of a thread. -/
def execBy [Scalar K] (moments : Bool → Nat → Moment) (s : Bool) (x : Meeting K) (o : Op K) :
    Except Err o.Res × Meeting K :=
  let r := execAt (moments s (x.made s)) x.world o
  (r.1, ⟨r.2, Function.update x.made s (x.made s + 1)⟩)

/-- The calls by which the threads meet over `_traffic_z`. -/
def meetsTrafficZ : Op K → Bool
  | .getTrafficZ _ => true
  | .setTrafficZ _ _ => true
  | _ => false

/-- The calls of the traffic thread, and those of the cost thread. -/
inductive Owns : Bool → Op K → Prop where
  | now {s : Bool} : Owns s .now
  | load {s : Bool} {service metric : String} : (metric = metricTraffic ↔ s = false) →
      Owns s (.loadProfile service metric)
  | save {s : Bool} {service metric : String} {row : BaselineRow K} :
      (metric = metricTraffic ↔ s = false) → Owns s (.saveProfile service metric row)
  | setTrafficZ {service : String} {z : K} : Owns false (.setTrafficZ service z)
  | getTrafficZ {service : String} : Owns true (.getTrafficZ service)
  | uuid4 : Owns true .uuid4
  | insertAnomaly {row : AnomalyRow K} : Owns true (.insertAnomaly row)
  | publish {m : AnomalyMessage K} : Owns true (.basicPublish (.anomaly m))

theorem saveProfile_comm (w : World K) {s s' m m' : String} (hm : m ≠ m')
    (row row' : BaselineRow K) :
    (w.saveProfile s m row).saveProfile s' m' row'
      = (w.saveProfile s' m' row').saveProfile s m row := by
  simp only [World.saveProfile, World.mk.injEq, true_and, and_true]
  funext a b
  by_cases h : b = m
  · have hne : b ≠ m' := h ▸ hm
    simp [h, hm]
  · simp [h]

/-- An insert reads and writes the anomalies, and nothing else. -/
theorem insertAnomaly_eq [Scalar K] (w : World K) (row : AnomalyRow K) :
    w.insertAnomaly row =
      (if w.anomalies.all (fun r => r.id ≠ row.id) && confidenceAllowed row.confidence then .ok ()
        else .error .integrity,
        { w with anomalies :=
            if w.anomalies.all (fun r => r.id ≠ row.id) && confidenceAllowed row.confidence then
              w.anomalies ++ [row]
            else w.anomalies }) := by
  unfold World.insertAnomaly World.admitsAnomaly
  split <;> rfl

/-- What a call does when nothing goes wrong. -/
def calmly [Scalar K] (clock : Time) (w : World K) (o : Op K) : Except Err o.Res × World K :=
  execAt ⟨clock, .ok⟩ w o

/-- Where nothing is shared, a fault is the caller's own affair. -/
theorem commutes_faulty {e e' : Exec (Op K) Op.Res Err (World K)} {o o' : Op K}
    (h : Commutes e e' o o') (f f' : Fault) :
    Commutes (fun w o => faulty f w (e w o)) (fun w o => faulty f' w (e' w o)) o o' := by
  intro w
  obtain ⟨h₁, h₂, h₃⟩ := h w
  cases f <;> cases f' <;> simp [faulty, h₁, h₂, h₃]

theorem execAt_eq [Scalar K] {s : Bool} {o : Op K} (ho : Owns s o) (t : Moment) (w : World K) :
    execAt t w o
      = faulty (if isLocal o then .none else t.choice.fault) w (calmly t.clock w o) := by
  cases ho <;> rfl

/-- Undisturbed, a call of the one thread and a call of the other may change places. -/
theorem calmly_comm [Scalar K] {o o' : Op K} (ho : Owns false o) (ho' : Owns true o')
    (hm : meetsTrafficZ o = true → meetsTrafficZ o' = false) (t t' : Time) :
    Commutes (calmly t) (calmly t') o o' := by
  intro w
  cases ho with
  | now => cases ho' <;> exact ⟨rfl, rfl, rfl⟩
  | @load _ service metric h =>
      obtain rfl := h.mpr rfl
      cases ho' with
      | save h' =>
          have hne : metricTraffic ≠ _ := fun heq => absurd (h'.mp heq.symm) (by decide)
          simp [calmly, execAt, exec, faulty, World.saveProfile, Choice.ok, hne]
      | insertAnomaly =>
          simp only [calmly, execAt, exec, faulty, Choice.ok, insertAnomaly_eq]
          exact ⟨trivial, rfl, trivial⟩
      | _ => exact ⟨rfl, rfl, rfl⟩
  | @save _ service metric row h =>
      obtain rfl := h.mpr rfl
      cases ho' with
      | load h' =>
          have hne : _ ≠ metricTraffic := fun heq => absurd (h'.mp heq) (by decide)
          simp [calmly, execAt, exec, faulty, World.saveProfile, Choice.ok, hne]
      | save h' =>
          have hne : metricTraffic ≠ _ := fun heq => absurd (h'.mp heq.symm) (by decide)
          exact ⟨rfl, rfl, (saveProfile_comm w hne _ _).symm⟩
      | insertAnomaly =>
          simp only [calmly, execAt, exec, faulty, Choice.ok, insertAnomaly_eq, World.saveProfile]
          exact ⟨trivial, rfl, trivial⟩
      | _ => exact ⟨rfl, rfl, rfl⟩
  | setTrafficZ =>
      cases ho' with
      | getTrafficZ => cases hm rfl
      | insertAnomaly =>
          simp only [calmly, execAt, exec, faulty, Choice.ok, insertAnomaly_eq]
          exact ⟨trivial, rfl, trivial⟩
      | _ => exact ⟨rfl, rfl, rfl⟩

theorem execAt_comm [Scalar K] {o o' : Op K} (ho : Owns false o) (ho' : Owns true o')
    (hm : meetsTrafficZ o = true → meetsTrafficZ o' = false) (t t' : Moment) :
    Commutes (execAt t) (execAt t') o o' := by
  intro w
  have h := commutes_faulty (calmly_comm ho ho' hm t.clock t'.clock)
    (if isLocal o then .none else t.choice.fault) (if isLocal o' then .none else t'.choice.fault) w
  simp only [← execAt_eq ho, ← execAt_eq ho'] at h
  exact h

theorem execBy_comm [Scalar K] (moments : Bool → Nat → Moment) {s : Bool} {o o' : Op K}
    (ho : Owns s o) (ho' : Owns (!s) o') (hm : meetsTrafficZ o = true → meetsTrafficZ o' = false) :
    Commutes (execBy moments s) (execBy moments (!s)) o o' := by
  have hworld : ∀ {o o' : Op K}, Owns false o → Owns true o' →
      (meetsTrafficZ o = true → meetsTrafficZ o' = false) →
      Commutes (execBy moments false) (execBy moments true) o o' := by
    intro o o' ho ho' hm x
    obtain ⟨h₁, h₂, h₃⟩ := execAt_comm ho ho' hm (moments false (x.made false))
      (moments true (x.made true)) x.world
    refine ⟨h₁, h₂, ?_⟩
    simp only [execBy, Meeting.mk.injEq]
    exact ⟨h₃, Function.update_comm (by decide) _ _ _⟩
  cases s with
  | false => exact hworld ho ho' hm
  | true =>
      refine (hworld ho' ho fun ho'' => ?_).symm
      cases hmo : meetsTrafficZ o with
      | false => rfl
      | true => rw [hm hmo] at ho''; cases ho''

/-! ## The handlers -/

variable [Scalar K]

/-- `main`: the traffic queue is consumed on a thread of its own, the cost queue on the main one. -/
def detectors (moments : Bool → Nat → Moment) :
    Consumers (Op K) Op.Res Err (Meeting K) (Message K) where
  side := Message.isCost
  handler := Message.handler
  exec := execBy moments
  marks := meetsTrafficZ

/-- Calls of one's own, and after the one on `_traffic_z` no other. -/
def OwnOnce (s : Bool) (h : History K) (o : Op K) : Prop :=
  Owns s o ∧ ((∃ c ∈ h, meetsTrafficZ c.op = true) → meetsTrafficZ o = false)

omit [Scalar K] in
theorem OwnOnce.of_not {s : Bool} {h : History K} {o : Op K} (ho : Owns s o)
    (hm : meetsTrafficZ o = false) : OwnOnce s h o :=
  ⟨ho, fun _ => hm⟩

theorem handleTraffic_once (m : TrafficSample K) :
    (handleTraffic m).Obeys (anyAnswer (OwnOnce false)) (fun _ _ => True) [] := by
  refine Prog.Obeys.bind (scoreAndLearn_obeys (.of_not (.load (by simp)) rfl)
    (fun _ => .of_not .now rfl) (fun _ _ _ => .of_not (.save (by simp)) rfl) _ _) ?_
    fun _ _ _ => trivial
  intro t a hs
  obtain ⟨p, now, row, v, -, -, ht⟩ := hs.of_ok
  rw [ht]
  refine obeys_last ⟨.setTrafficZ, fun hmark => ?_⟩ fun _ => trivial
  obtain ⟨c, hc, hm⟩ := hmark
  simp only [List.mem_cons, List.not_mem_nil, or_false] at hc
  rcases hc with rfl | rfl | rfl <;> cases hm

/-- The calls by which an anomaly is flagged. -/
def isFlagging : Op K → Bool
  | .now => true
  | .uuid4 => true
  | .insertAnomaly _ => true
  | .basicPublish (.anomaly _) => true
  | _ => false

theorem flagAnomaly_flags (f : Flag K) (h : History K) :
    (flagAnomaly f).Obeys (anyAnswer fun _ o => isFlagging o = true) (fun _ _ => True) h := by
  refine obeys_local rfl rfl fun _ => ?_
  refine obeys_local rfl rfl fun _ => ?_
  refine obeys_call rfl (fun _ => ?_) fun _ => trivial
  refine (publish_obeys (h := _) fun _ _ => ?_).mono fun _ _ _ => trivial
  rfl

omit [Scalar K] in
theorem OwnOnce.of_isFlagging {h : History K} {o : Op K} (ho : isFlagging o = true) :
    OwnOnce true h o := by
  cases o with
  | now => exact .of_not .now rfl
  | uuid4 => exact .of_not .uuid4 rfl
  | insertAnomaly row => exact .of_not .insertAnomaly rfl
  | basicPublish p =>
      cases p with
      | anomaly m => exact .of_not .publish rfl
      | remediation m => cases ho
  | _ => cases ho

theorem baselines_of_isFlagging {o : Op K} (ho : isFlagging o = true) (t : Moment) (w : World K) :
    (execAt t w o).2.baselines = w.baselines ∧ (execAt t w o).2.trafficZ = w.trafficZ := by
  cases o with
  | now => exact ⟨rfl, rfl⟩
  | uuid4 => exact ⟨rfl, rfl⟩
  | insertAnomaly row =>
      simp only [execAt, exec, insertAnomaly_eq]
      cases t.choice.fault <;> exact ⟨rfl, rfl⟩
  | basicPublish p =>
      simp only [execAt, exec]
      cases p <;> cases t.choice.fault <;> exact ⟨rfl, rfl⟩
  | _ => cases ho

theorem handleCost_once (m : CostEvent K) :
    (handleCost m).Obeys (anyAnswer (OwnOnce true)) (fun _ _ => True) [] := by
  have hcpu : metricCpu = metricTraffic ↔ true = false := by decide
  have hcost : metricCost = metricTraffic ↔ true = false := by decide
  refine Prog.Obeys.bind (scoreAndLearn_obeys (.of_not (.load hcpu) rfl)
    (fun _ => .of_not .now rfl) (fun _ _ _ => .of_not (.save hcpu) rfl) _ _) ?_
    fun _ _ _ => trivial
  intro t a hs
  obtain ⟨p, now, row, v, -, -, ht⟩ := hs.of_ok
  rw [ht]
  refine obeys_call (.of_not (.load hcost) rfl) (fun p => ?_) fun _ => trivial
  refine obeys_local rfl ⟨.getTrafficZ, fun hmark => ?_⟩ fun tz => ?_
  · obtain ⟨c, hc, hm⟩ := hmark
    simp only [List.mem_cons, List.not_mem_nil, or_false] at hc
    rcases hc with rfl | rfl | rfl | rfl <;> cases hm
  -- from here on nothing is marked
  · refine Prog.Obeys.bind (R := fun _ _ => True) ?_ (fun _ _ _ => ?_) fun _ _ _ => trivial
    · exact saveProfile_obeys (.of_not .now rfl) fun _ _ _ =>
        ⟨.of_not (.save hcost) rfl, fun _ => trivial⟩
    · refine .ite (fun _ => ?_) fun _ => trivial
      exact (flagAnomaly_flags _ _).weaken (fun _ _ => .of_isFlagging) fun _ _ _ h => h

/-- A thread is answered at once by what stays in the process. -/
theorem execBy_gives (moments : Bool → Nat → Moment) (s : Bool) (x : Meeting K) {o : Op K}
    (ho : isLocal o = true) : (⟨o, (execBy moments s x o).1⟩ : SysCall K).isOk = true := by
  cases o <;> first | rfl | cases ho

/-- The threads get in each other's way at `_traffic_z`, and nowhere else. -/
theorem detectors_apart (moments : Bool → Nat → Moment) :
    (detectors (K := K) moments).Apart Owns where
  handler m := by
    have hgives : ∀ (t : History K) (o : Op K) (r : Except Err o.Res),
        (∃ x, (execBy moments m.isCost x o).1 = r) → isLocal o = true →
        (⟨o, r⟩ : SysCall K).isOk = true := by
      intro t o r hx ho
      obtain ⟨x, rfl⟩ := hx
      exact execBy_gives moments m.isCost x ho
    cases m with
    | traffic m => exact (handleTraffic_once m).weaken (fun _ _ h => h) hgives
    | cost m => exact (handleCost_once m).weaken (fun _ _ h => h) hgives
  commutes := execBy_comm moments

/-! ## What is learned of a service -/

/-- The CPU profile of a service, and the memory of the two other metrics. -/
structure Trained (K : Type) where
  cpu : Profile K
  memory : Memory K

/-- What its service learns from a message. A reading without a CPU value teaches nothing. -/
def Trained.absorb (t : Trained K) : Message K → Trained K
  | .traffic m => { t with memory := t.memory.handle (.traffic m) }
  | .cost m =>
      match m.cpuCores.getD (some 0) with
      | some v => ⟨learn t.cpu (bucketKey m.timestamp) v, t.memory.handle (.cost m)⟩
      | none => t

/-- Nothing goes wrong. -/
def undisturbed (clock : Bool → Nat → Time) (s : Bool) (n : Nat) : Moment := ⟨clock s n, .ok⟩

end HyperTrace.Behaviour

namespace HyperTrace.Proof

open HyperTrace Effect Behaviour

variable {K : Type} [Scalar K]

def trainedOf (w : World K) (service : String) : Trained K :=
  ⟨profileOf w service metricCpu, memoryOf w service⟩

variable (clock : Bool → Nat → Time)

/-! ## A handler alone -/

theorem handleTraffic_alone (x : Meeting K) (m : TrafficSample K) :
    ∃ now, ((handleTraffic m).alone (execBy (undisturbed clock) false) x).2.world =
      { x.world.saveProfile m.service metricTraffic (baselineRow
          (learn (profileOf x.world m.service metricTraffic) (bucketKey m.timestamp)
            m.requestsPerSecond) now) with
        trafficZ := put x.world.trafficZ m.service (scoreIn (BucketStats.fromDict
          (profileOf x.world m.service metricTraffic (bucketKey m.timestamp)))
            m.requestsPerSecond) } :=
  ⟨_, rfl⟩

theorem alone_bind {α β : Type} {x x' : Meeting K} {s : Bool} {moments : Bool → Nat → Moment}
    {p : Py K α} {f : α → Py K β} {a : α} (h : p.alone (execBy moments s) x = (.ok a, x')) :
    (p >>= f).alone (execBy moments s) x = (f a).alone (execBy moments s) x' := by
  have hb := Prog.run_bind_const (fun x o (_ : Unit) => execBy moments s x o) x () p f
  rw [show p.run (fun x o (_ : Unit) => execBy moments s x o) (fun _ => ()) x = _ from h] at hb
  exact hb

theorem scoreAndLearn_alone (x : Meeting K) (service metric bucket : String) (v : K) :
    ∃ n now made,
      (scoreAndLearn service metric (some v) bucket).alone (execBy (undisturbed clock) true) x =
        (.ok (scoreIn (BucketStats.fromDict (profileOf x.world service metric bucket)) v, n),
          ⟨x.world.saveProfile service metric
            (baselineRow (learn (profileOf x.world service metric) bucket v) now), made⟩) :=
  ⟨_, _, _, rfl⟩

theorem saveProfile_alone (x : Meeting K) (service metric : String) (p : Profile K) :
    ∃ now made, (saveProfile service metric p).alone (execBy (undisturbed clock) true) x =
      (.ok (), ⟨x.world.saveProfile service metric (baselineRow p now), made⟩) :=
  ⟨_, _, rfl⟩

theorem loadProfile_alone (x : Meeting K) (service metric : String) :
    ∃ made, (loadProfile service metric).alone (execBy (undisturbed clock) true) x =
      (.ok (profileOf x.world service metric), ⟨x.world, made⟩) :=
  ⟨_, rfl⟩

theorem getTrafficZ_alone (x : Meeting K) (service : String) :
    ∃ made, (call (.getTrafficZ service)).alone (execBy (undisturbed clock) true) x =
      (.ok (x.world.trafficZ service), ⟨x.world, made⟩) :=
  ⟨_, rfl⟩

/-- What is flagged changes nothing that has been learned. -/
theorem flagAnomaly_alone (moments : Bool → Nat → Moment) (x : Meeting K) (f : Behaviour.Flag K)
    (service : String) :
    trainedOf ((flagAnomaly f).alone (execBy moments true) x).2.world service
      = trainedOf x.world service := by
  refine (flagAnomaly_flags f []).keeps (G := fun x => trainedOf x.world service)
    (fun _ x o => execBy_gives moments true x) ?_ x
  intro _ o x ho
  obtain ⟨hbase, hsignal⟩ := baselines_of_isFlagging ho (moments true (x.made true)) x.world
  simp only [execBy, trainedOf, memoryOf, profileOf, hbase, hsignal]

/-- A profile is saved, and then an anomaly flagged or not. -/
theorem trainedOf_saved (x : Meeting K) (service metric other : String) (p : Profile K)
    (f : Behaviour.Flag K) (b : Prop) [Decidable b] :
    ∃ now, trainedOf ((saveProfile service metric p >>= fun _ =>
          if b then flagAnomaly f else pure ()).alone
        (execBy (undisturbed clock) true) x).2.world other
      = trainedOf (x.world.saveProfile service metric (baselineRow p now)) other := by
  obtain ⟨now, made, hsave⟩ := saveProfile_alone clock x service metric p
  rw [alone_bind hsave]
  refine ⟨now, ?_⟩
  split
  · exact flagAnomaly_alone ..
  · rfl

/-- The cost handler saves both profiles, and then flags or not. -/
theorem handleCost_alone (x : Meeting K) (m : CostEvent K) {cpu : K}
    (hcpu : m.cpuCores.getD (some 0) = some cpu) (service : String) :
    ∃ now now', trainedOf
        ((handleCost m).alone (execBy (undisturbed clock) true) x).2.world service
      = trainedOf ((x.world.saveProfile m.service metricCpu (baselineRow
            (learn (profileOf x.world m.service metricCpu) (bucketKey m.timestamp) cpu)
            now)).saveProfile m.service metricCost
          (baselineRow ((Reading.mk m (x.world.trafficZ m.service)).judge
            (profileOf x.world m.service metricCost)) now')) service := by
  obtain ⟨n, now, made, hscore⟩ := scoreAndLearn_alone clock x m.service metricCpu
    (bucketKey m.timestamp) cpu
  -- the CPU save leaves the cost profile as it was
  have hcost : profileOf (x.world.saveProfile m.service metricCpu (baselineRow
      (learn (profileOf x.world m.service metricCpu) (bucketKey m.timestamp) cpu) now))
      m.service metricCost = profileOf x.world m.service metricCost := by
    simp [profileOf, World.saveProfile, show metricCost ≠ metricCpu by decide]
  obtain ⟨made', hload⟩ := loadProfile_alone clock
    ⟨x.world.saveProfile m.service metricCpu (baselineRow
      (learn (profileOf x.world m.service metricCpu) (bucketKey m.timestamp) cpu) now), made⟩
    m.service metricCost
  obtain ⟨made'', hlook⟩ := getTrafficZ_alone clock
    ⟨x.world.saveProfile m.service metricCpu (baselineRow
      (learn (profileOf x.world m.service metricCpu) (bucketKey m.timestamp) cpu) now), made'⟩
    m.service
  have hqual := evaluateCondition_fst m (profileOf x.world m.service metricCost)
    (x.world.trafficZ m.service)
    (scoreIn (BucketStats.fromDict
      (profileOf x.world m.service metricCpu (bucketKey m.timestamp))) cpu)
  unfold handleCost
  simp only [hcpu]
  rw [alone_bind hscore, alone_bind hload, hcost, alone_bind hlook]
  dsimp only at hqual ⊢
  rw [show (x.world.saveProfile m.service metricCpu (baselineRow (learn
    (profileOf x.world m.service metricCpu) (bucketKey m.timestamp) cpu) now)).trafficZ
    = x.world.trafficZ from rfl, hqual]
  rw [Reading.judge_eq]
  exact ⟨now, trainedOf_saved clock ..⟩

theorem handleCost_null (x : Meeting K) (m : CostEvent K) (hcpu : m.cpuCores.getD (some 0) = none) :
    ((handleCost m).alone (execBy (undisturbed clock) true) x).2.world = x.world := by
  unfold handleCost
  simp only [hcpu]
  rfl

/-- **One message, handled with nobody else around.** -/
theorem trainedOf_handler (x : Meeting K) (m : Message K) (service : String) :
    trainedOf ((m.handler.alone (execBy (undisturbed clock) m.isCost) x).2.world) service
      = if m.service = service then (trainedOf x.world service).absorb m
        else trainedOf x.world service := by
  have hct : metricCpu ≠ metricTraffic := by decide
  have hst : metricCost ≠ metricTraffic := by decide
  have hsc : metricCost ≠ metricCpu := by decide
  cases m with
  | traffic m =>
      obtain ⟨now, hrun⟩ := handleTraffic_alone clock x m
      show trainedOf ((handleTraffic m).alone (execBy (undisturbed clock) false) x).2.world _ = _
      rw [hrun]
      by_cases hs : m.service = service
      · subst hs
        simp [trainedOf, memoryOf, profileOf, World.saveProfile, baselineRow, Message.service,
          Trained.absorb, Memory.handle, hct, hst]
      · simp [trainedOf, memoryOf, profileOf, World.saveProfile, Message.service, hs, Ne.symm hs,
          put_ne]
  | cost m =>
      show trainedOf ((handleCost m).alone (execBy (undisturbed clock) true) x).2.world _ = _
      cases hcpu : m.cpuCores.getD (some 0) with
      | some cpu =>
          obtain ⟨now, now', hrun⟩ := handleCost_alone clock x m hcpu service
          rw [hrun]
          by_cases hs : m.service = service
          · subst hs
            simp [trainedOf, memoryOf, profileOf, World.saveProfile, baselineRow, Message.service,
              Trained.absorb, Memory.handle, hcpu, hct.symm, hst.symm, hsc.symm]
          · simp [trainedOf, memoryOf, profileOf, World.saveProfile, Message.service, hs,
              Ne.symm hs]
      | none =>
          rw [handleCost_null clock x m hcpu]
          simp [Message.service, Trained.absorb, hcpu]

theorem trainedOf_serial (x : Meeting K) (log : List (Message K)) (service : String) :
    trainedOf ((detectors (undisturbed clock)).serial log x).world service
      = (log.filter fun m => m.service = service).foldl Trained.absorb
        (trainedOf x.world service) := by
  induction log generalizing x with
  | nil => rfl
  | cons m log ih =>
      rw [Consumers.serial, List.foldl_cons]
      refine (ih _).trans ?_
      show List.foldl _ (trainedOf (m.handler.alone (execBy (undisturbed clock) m.isCost) x).2.world
        service) _ = _
      rw [trainedOf_handler]
      by_cases h : m.service = service
      · simp [h]
      · simp [h]

/-! ## Both at once -/

/-- The two threads at work on what is in their queues, turn by turn. -/
def overlapped (moments : Bool → Nat → Moment) (w : World K) (ms : List (Message K))
    (schedule : List Bool) : Consumers.State (Op K) Op.Res Err (Meeting K) (Message K) :=
  (detectors moments).run ((detectors moments).initial ⟨w, fun _ => 0⟩ ms) schedule

/-- The same messages, each handled before the next one is taken. -/
def oneByOne (moments : Bool → Nat → Moment) (w : World K) (log : List (Message K)) : World K :=
  ((detectors moments).serial log ⟨w, fun _ => 0⟩).world

/--
**The two threads of the detector are linearizable.**

Any world, any messages, any schedule of the calls of the two threads, whatever the
clocks say and whichever calls fail. A run can be carried on until everything is
handled, and then the world is that of handling the messages one by one in the order
of the log, to which a message is added when its handler writes or reads `_traffic_z`.
No message is missing in it, and where nothing fails every profile has learned each.
-/
theorem detectors_linearizable (moments : Bool → Nat → Moment) (w : World K)
    (ms : List (Message K)) (schedule : List Bool) :
    (∃ rest, (overlapped moments w ms (schedule ++ rest)).Finished)
      ∧ ((overlapped moments w ms schedule).Finished →
        (overlapped moments w ms schedule).shared.world
            = oneByOne moments w (overlapped moments w ms schedule).log
          ∧ (∀ s, ((overlapped moments w ms schedule).log.filter fun m => m.isCost = s)
            = ms.filter fun m => m.isCost = s)
          ∧ ∀ clock, moments = undisturbed clock → ∀ service,
            trainedOf (overlapped moments w ms schedule).shared.world service
              = ((overlapped moments w ms schedule).log.filter fun m => m.service = service).foldl
                Trained.absorb (trainedOf w service)) := by
  constructor
  · obtain ⟨rest, hrest⟩ :=
      Consumers.exists_finished (C := detectors moments) (overlapped moments w ms schedule)
    refine ⟨rest, ?_⟩
    rw [overlapped, Consumers.run, List.foldl_append]
    exact hrest
  · intro hdone
    obtain ⟨hworld, horder⟩ := Consumers.serializable (detectors_apart moments) hdone
    refine ⟨congrArg Meeting.world hworld, horder, ?_⟩
    intro clock h service
    subst h
    rw [show (overlapped (undisturbed clock) w ms schedule).shared
      = (detectors (undisturbed clock)).serial
        (overlapped (undisturbed clock) w ms schedule).log ⟨w, fun _ => 0⟩ from hworld]
    exact trainedOf_serial ..

namespace Scenario

/-- A cost reading is taken first, and looks at the traffic before the sample is in. -/
noncomputable def crossed : Consumers.State (Op ℝ) Op.Res Err (Meeting ℝ) (Message ℝ) :=
  overlapped (undisturbed fun _ n => n) (World.empty ℝ) [.traffic ⟨0, victim, 1⟩, .cost realCost]
    [true, true, false, true, false, true, false, true, true, false, false, true, true, false, true]

end Scenario

open Scenario in
/-- A sample and a reading, in the order in which they took effect. -/
theorem detectors_linearizable_crossed :
    crossed.Finished ∧ crossed.shared.world
      = oneByOne (undisturbed fun _ n => n) (World.empty ℝ)
        [.cost realCost, .traffic ⟨0, victim, 1⟩] := by
  have hdone : crossed.Finished := by
    intro s
    cases s with
    | false => exact ⟨rfl, rfl⟩
    | true => exact ⟨rfl, rfl⟩
  exact ⟨hdone, ((detectors_linearizable _ _ _ _).2 hdone).1⟩

end HyperTrace.Proof
