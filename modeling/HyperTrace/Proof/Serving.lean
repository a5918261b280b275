import HyperTrace.Proof.Alone
import HyperTrace.Proof.Variation

/-!
# One message after the other

What the two handlers of the detector do when nothing fails and each message is
handled before the next one comes. `Memory` is what the detector keeps of one
service, and a message moves it as its handler moves the world. The running system
can always go on that way: whatever messages are to come, there is a schedule that
hands them over one by one and lets each handler come to its end.
-/

namespace HyperTrace.Behaviour

open Effect

variable {K : Type}

/-- A message of one of the two queues of the detector. -/
inductive Message (K : Type) where
  | traffic (m : TrafficSample K)
  | cost (m : CostEvent K)

/-- What the detector keeps of a service, but for the CPU, which decides nothing. -/
structure Memory (K : Type) where
  traffic : Profile K
  cost : Profile K
  signal : Option K

variable [Scalar K]

namespace Message

def handler : Message K → Py K Unit
  | .traffic m => handleTraffic m
  | .cost m => handleCost m

def service : Message K → String
  | .traffic m => m.service
  | .cost m => m.service

/-- The queue it stands in. -/
def consumer : Message K → Consumer
  | .traffic _ => .behaviourTraffic
  | .cost _ => .behaviourCost

/-- What hands it over. -/
def start : Message K → Start K
  | .traffic m => .traffic m
  | .cost m => .cost m

/-- It has a number for the CPU, or none at all. -/
def Numeric : Message K → Prop
  | .traffic _ => True
  | .cost m => ∃ cpu, m.cpuCores.getD (some 0) = some cpu

end Message

namespace Memory

/-- What a message does to the memory of its service. -/
def handle (μ : Memory K) : Message K → Memory K
  | .traffic m =>
      { μ with
        traffic := learn μ.traffic (bucketKey m.timestamp) m.requestsPerSecond
        signal := some (scoreIn (BucketStats.fromDict (μ.traffic (bucketKey m.timestamp)))
          m.requestsPerSecond) }
  | .cost m => { μ with cost := (Reading.mk m μ.signal).judge μ.cost }

/-- Whether a message is flagged. -/
def flagged (μ : Memory K) : Message K → Bool
  | .traffic _ => false
  | .cost m => (Reading.mk m μ.signal).shouldFlag μ.cost

/-- How many messages are flagged, if they come in this order. -/
def flagCount (μ : Memory K) : List (Message K) → Nat
  | [] => 0
  | m :: ms => (μ.flagged m).toNat + (μ.handle m).flagCount ms

theorem flagCount_append (μ : Memory K) (ms ms' : List (Message K)) :
    μ.flagCount (ms ++ ms') = μ.flagCount ms + (ms.foldl handle μ).flagCount ms' := by
  induction ms generalizing μ with
  | nil => exact (Nat.zero_add _).symm
  | cons m ms ih => rw [List.cons_append, flagCount, ih, flagCount, List.foldl_cons, Nat.add_assoc]

/-- A reading that does not qualify is learned, and both counters start again. -/
theorem handle_of_not {μ : Memory K} {m : CostEvent K}
    (hq : (Reading.mk m μ.signal).qualifies μ.cost = false) :
    μ.flagged (.cost m) = false
      ∧ BucketStats.fromDict ((μ.handle (.cost m)).cost (bucketKey m.timestamp))
          = (BucketStats.fromDict (μ.cost (bucketKey m.timestamp))).update m.costPerHour
      ∧ flags (μ.handle (.cost m)).cost = ⟨0, 0⟩ := by
  have hadm := admitted_of_not hq
  refine ⟨?_, ?_, ?_⟩
  · rw [flagged, Reading.shouldFlag, hq, Bool.false_and]
  · show BucketStats.fromDict ((Reading.mk m μ.signal).judge μ.cost (bucketKey m.timestamp)) = _
    rw [judge_of_admitted (by rw [hadm]) (bucketKey_ne_flagState _), learn,
      put_ne _ _ (bucketKey_ne_overall _)]
    exact congrArg BucketStats.fromDict (put_self ..)
  · show flags ((Reading.mk m μ.signal).judge μ.cost) = _
    rw [flags_judge, hadm, dwelt_eq, hq]
    rfl

/-- Readings of a bucket that is still too young are all learned. -/
theorem handle_young (μ : Memory K) {bucket : String} (ms : List (CostEvent K))
    (hms : ∀ m ∈ ms, bucketKey m.timestamp = bucket)
    (hyoung : (BucketStats.fromDict (μ.cost bucket)).n + ms.length ≤ minSamplesForDetection)
    (hflags : Behaviour.flags μ.cost = ⟨0, 0⟩) :
    ((ms.map Message.cost).foldl handle μ).signal = μ.signal
      ∧ Behaviour.flags ((ms.map Message.cost).foldl handle μ).cost = ⟨0, 0⟩
      ∧ BucketStats.fromDict (((ms.map Message.cost).foldl handle μ).cost bucket)
          = (ms.map CostEvent.costPerHour).foldl BucketStats.update
              (BucketStats.fromDict (μ.cost bucket)) := by
  induction ms generalizing μ with
  | nil => exact ⟨rfl, hflags, rfl⟩
  | cons m ms ih =>
      have hbucket := hms m (List.mem_cons_self ..)
      rw [List.length_cons] at hyoung
      have hq : (Reading.mk m μ.signal).qualifies μ.cost = false := by
        rw [Bool.eq_false_iff]
        intro hq
        have hn := (qualifies_iff.mp hq).1.1
        rw [show (Reading.mk m μ.signal).bucket = bucket from hbucket] at hn
        omega
      obtain ⟨_, hstats, hflags'⟩ := handle_of_not hq
      rw [hbucket] at hstats
      obtain ⟨hsignal, hlast, hrest⟩ := ih (μ.handle (.cost m))
        (fun m' hm' => hms m' (List.mem_cons_of_mem _ hm'))
        (by rw [hstats]; show _ + 1 + _ ≤ _; omega) hflags'
      refine ⟨hsignal, hlast, ?_⟩
      rw [List.map_cons, List.map_cons, List.foldl_cons, List.foldl_cons, hrest, hstats]

end Memory

end HyperTrace.Behaviour

namespace HyperTrace.Proof

open HyperTrace Effect Behaviour

variable {K : Type} [Scalar K]

/-! ## The handlers on their own -/

/-- What the detector keeps of a service, in a world. -/
def memoryOf (w : World K) (service : String) : Memory K :=
  ⟨profileOf w service metricTraffic, profileOf w service metricCost, w.trafficZ service⟩

/-- What a cost handler has saved before it flags. -/
def judgedWorld (w : World K) (m : CostEvent K) (cpu : K) : World K :=
  (w.saveProfile m.service metricCpu
      (baselineRow (learn (profileOf w m.service metricCpu) (bucketKey m.timestamp) cpu)
        w.clock)).saveProfile m.service metricCost
    (baselineRow ((Reading.mk m (w.trafficZ m.service)).judge (profileOf w m.service metricCost))
      w.clock)

theorem handleTraffic_run (tie : Nat → Nat) (w : World K) (m : TrafficSample K) :
    (handleTraffic m).run exec (sound tie) w =
      (.ok (), { w.saveProfile m.service metricTraffic (baselineRow
          (learn (profileOf w m.service metricTraffic) (bucketKey m.timestamp)
            m.requestsPerSecond) w.clock) with
        trafficZ := put w.trafficZ m.service (scoreIn (BucketStats.fromDict
          (profileOf w m.service metricTraffic (bucketKey m.timestamp))) m.requestsPerSecond) }) :=
  rfl

theorem scoreAndLearn_run (tie : Nat → Nat) (w : World K) (service metric bucket : String) (v : K) :
    (scoreAndLearn service metric (some v) bucket).run exec (sound tie) w =
      (.ok (scoreIn (BucketStats.fromDict (profileOf w service metric bucket)) v,
          (BucketStats.fromDict (profileOf w service metric bucket)).n + 1),
        w.saveProfile service metric
          (baselineRow (learn (profileOf w service metric) bucket v) w.clock)) :=
  rfl

theorem saveProfile_run (tie : Nat → Nat) (w : World K) (service metric : String) (p : Profile K) :
    (saveProfile service metric p).run exec (sound tie) w =
      (.ok (), w.saveProfile service metric (baselineRow p w.clock)) :=
  rfl

theorem loadProfile_run (tie : Nat → Nat) (w : World K) (service metric : String) :
    (loadProfile service metric).run exec (sound tie) w = (.ok (profileOf w service metric), w) :=
  rfl

theorem getTrafficZ_run (tie : Nat → Nat) (w : World K) (service : String) :
    (call (.getTrafficZ service)).run exec (sound tie) w = (.ok (w.trafficZ service), w) :=
  rfl

/-- What the cost handler flags in a world, if it does. -/
def flagIn (w : World K) (m : CostEvent K) (cpu : K) : Behaviour.Flag K :=
  flagOf m (profileOf w m.service metricCost) (w.trafficZ m.service)
    (scoreIn (BucketStats.fromDict (profileOf w m.service metricCpu (bucketKey m.timestamp))) cpu)

/-- The cost handler saves both profiles, and flags what it has to. -/
theorem handleCost_run (tie : Nat → Nat) (w : World K) (m : CostEvent K) {cpu : K}
    (hcpu : m.cpuCores.getD (some 0) = some cpu) :
    (handleCost m).run exec (sound tie) w =
      if (Reading.mk m (w.trafficZ m.service)).shouldFlag (profileOf w m.service metricCost) then
        (flagAnomaly (flagIn w m cpu)).run exec (sound tie) (judgedWorld w m cpu)
      else (.ok (), judgedWorld w m cpu) := by
  -- the CPU save leaves the cost profile as it was
  have hcost : profileOf (w.saveProfile m.service metricCpu
      (baselineRow (learn (profileOf w m.service metricCpu) (bucketKey m.timestamp) cpu) w.clock))
      m.service metricCost = profileOf w m.service metricCost := by
    simp [profileOf, World.saveProfile, show metricCost ≠ metricCpu by decide]
  rw [handleCost_eq, hcpu, run_bind (scoreAndLearn_run tie w ..), run_bind (loadProfile_run ..),
    hcost, run_bind (getTrafficZ_run ..), run_bind (saveProfile_run ..)]
  show Prog.run exec (if (Reading.mk m (w.trafficZ m.service)).shouldFlag
    (profileOf w m.service metricCost) = true then _ else _) _ _ = _
  split <;> rfl

theorem memoryOf_judged (w : World K) (m : CostEvent K) (cpu : K) :
    memoryOf (judgedWorld w m cpu) m.service = (memoryOf w m.service).handle (.cost m) := by
  simp [memoryOf, judgedWorld, Memory.handle, profileOf, World.saveProfile, baselineRow,
    show metricTraffic ≠ metricCost by decide, show metricTraffic ≠ metricCpu by decide]

/-- The world after a flag. -/
def flaggedWorld (w : World K) (f : Behaviour.Flag K) : World K :=
  { w with
    nextUuid := w.nextUuid + 1
    anomalies := w.anomalies ++ [f.row w.nextUuid w.clock]
    anomalyQueue := w.anomalyQueue ++ [f.message w.nextUuid w.clock] }

/-- A flag stores one anomaly, under an id that is new, and publishes it. -/
theorem flagAnomaly_run (tie : Nat → Nat) {w : World K} (f : Behaviour.Flag K)
    (hfresh : ∀ r ∈ w.anomalies, r.id ≠ w.nextUuid)
    (hconf : confidenceAllowed f.scoreConfidence = true) :
    (flagAnomaly f).run exec (sound tie) w = (.ok (), flaggedWorld w f) := by
  have hadmit : exec { w with nextUuid := w.nextUuid + 1 }
      (.insertAnomaly (f.row w.nextUuid w.clock)) ⟨.none, tie⟩
      = (.ok (), { w with nextUuid := w.nextUuid + 1
                          anomalies := w.anomalies ++ [f.row w.nextUuid w.clock] }) :=
    if_pos (admitsAnomaly_iff.mpr ⟨hfresh, hconf⟩)
  calc (flagAnomaly f).run exec (sound tie) w
      = (call (.insertAnomaly (f.row w.nextUuid w.clock)) >>= fun _ =>
            publish (.anomaly (f.message w.nextUuid w.clock))).run exec (sound tie)
          { w with nextUuid := w.nextUuid + 1 } := rfl
    _ = (publish (.anomaly (f.message w.nextUuid w.clock))).run exec (sound tie)
          { w with
            nextUuid := w.nextUuid + 1
            anomalies := w.anomalies ++ [f.row w.nextUuid w.clock] } :=
        run_call (f := fun _ => publish (.anomaly (f.message w.nextUuid w.clock))) hadmit
    _ = (.ok (), flaggedWorld w f) := rfl

/-- What a message has made of the world when it has been handled. -/
structure Absorbed (w w' : World K) (m : Message K) : Prop where
  memory : memoryOf w' m.service = (memoryOf w m.service).handle m
  /-- What is flagged is stored, under the next id. -/
  anomalies : if (memoryOf w m.service).flagged m then
      ∃ row, row.id = w.nextUuid ∧ w'.anomalies = w.anomalies ++ [row]
        ∧ w'.nextUuid = w.nextUuid + 1
    else w'.anomalies = w.anomalies ∧ w'.nextUuid = w.nextUuid
  busy : w'.busy = w.busy

/-- **A handler moves the memory of its service as `handle` says, and stores what it flags.** -/
theorem absorbed (w : World K) {m : Message K} (hnum : m.Numeric)
    (hfresh : ∀ r ∈ w.anomalies, r.id ≠ w.nextUuid) :
    ∃ w', m.handler.run exec (sound id) w = (.ok (), w') ∧ Absorbed w w' m := by
  cases m with
  | traffic m =>
      refine ⟨_, handleTraffic_run id w m, ?_, ?_, rfl⟩
      · simp [memoryOf, Memory.handle, Message.service, profileOf, World.saveProfile, baselineRow,
          show metricCost ≠ metricTraffic by decide]
      · rw [if_neg (by exact Bool.false_ne_true)]
        exact ⟨rfl, rfl⟩
  | cost m =>
      obtain ⟨cpu, hcpu⟩ := hnum
      have hrun := handleCost_run id w m hcpu
      have hmem := memoryOf_judged w m cpu
      cases hflag : (Reading.mk m (w.trafficZ m.service)).shouldFlag
          (profileOf w m.service metricCost) with
      | false =>
          rw [hflag, if_neg Bool.false_ne_true] at hrun
          refine ⟨_, hrun, hmem, ?_, rfl⟩
          have hnot : (memoryOf w m.service).flagged (.cost m) = false := hflag
          exact (if_neg (Bool.eq_false_iff.mp hnot)).symm ▸ ⟨rfl, rfl⟩
      | true =>
          rw [hflag, if_pos rfl, flagAnomaly_run id _ (by exact hfresh)
            (by exact flagOf_allowed ..)] at hrun
          refine ⟨_, hrun, hmem, ?_, rfl⟩
          rw [if_pos (by exact hflag)]
          exact ⟨_, rfl, rfl, rfl⟩

/-- Every id of an anomaly was drawn. -/
def Drawn (w : World K) : Prop := ∀ r ∈ w.anomalies, r.id < w.nextUuid

theorem Absorbed.drawn {w w' : World K} {m : Message K} (h : Absorbed w w' m) (hw : Drawn w) :
    Drawn w' := by
  have hanom := h.anomalies
  split at hanom
  · obtain ⟨row, hid, hrows, hnext⟩ := hanom
    intro r hr
    rw [hrows] at hr
    rw [hnext]
    rcases List.mem_append.mp hr with hr | hr
    · exact Nat.lt_succ_of_lt (hw r hr)
    · rw [List.mem_singleton.mp hr, hid]
      exact Nat.lt_succ_self _
  · intro r hr
    rw [hanom.1] at hr
    rw [hanom.2]
    exact hw r hr

theorem Absorbed.length {w w' : World K} {m : Message K} (h : Absorbed w w' m) :
    w'.anomalies.length = w.anomalies.length + ((memoryOf w m.service).flagged m).toNat := by
  have hanom := h.anomalies
  split at hanom
  · rename_i hflag
    obtain ⟨row, _, hrows, _⟩ := hanom
    rw [hrows, hflag, List.length_append]
    rfl
  · rename_i hflag
    rw [hanom.1, Bool.eq_false_iff.mpr hflag]
    rfl

/-! ## In the running system -/

theorem callback_run {consumer : Consumer} {p : Py K Unit} {w v : World K}
    (h : p.run exec (sound id) w = (.ok (), v)) :
    (callback consumer p).run exec (sound id) w = (.ok .none, v.release consumer) := by
  have hdone : (p >>= fun _ => pure true).run exec (sound id) w = (.ok true, v) := run_bind h
  exact run_bind (Prog.run_tryCatch_ok exec _ w hdone _)

/-- The schedule hands the messages over one by one, each when the one before was handled. -/
inductive Serves : Nat → List (Message K) → List (SysAct K) → Prop where
  | nil (i : Nat) : Serves i [] []
  | cons {i n : Nat} {m : Message K} {ms : List (Message K)} {acts : List (SysAct K)} :
      Serves (i + 1) ms acts →
      Serves i (m :: ms) (.start m.start :: List.replicate n (.step i .ok) ++ acts)

theorem start_message (cfg : Settings) {w : World K} (m : Message K) (tid : Nat)
    (hfree : w.busy m.consumer = none) :
    ∃ tag, (system cfg).start w tid m.start
      = some ({ w with busy := fun d => if d = m.consumer then some tid else w.busy d }, tag,
        callback m.consumer m.handler) := by
  cases m with
  | traffic m =>
      refine ⟨.traffic m, ?_⟩
      have hbusy : w.busy .behaviourTraffic = none := hfree
      simp only [system, Message.start, begin, World.take, hbusy, Option.map_some]
      rfl
  | cost m =>
      refine ⟨.cost m, ?_⟩
      have hbusy : w.busy .behaviourCost = none := hfree
      simp only [system, Message.start, begin, World.take, hbusy, Option.map_some]
      rfl

/-- **A message can be handed over and handled.** -/
theorem exists_handled (cfg : Settings) {c : SysConfig K} {m : Message K} (hnum : m.Numeric)
    (hfree : c.world.busy m.consumer = none) (hdrawn : Drawn c.world) :
    ∃ n c', (system cfg).steps (fun _ _ => true) c
        (.start m.start :: List.replicate n (.step c.threads.length .ok)) = some c'
      ∧ c'.threads.length = c.threads.length + 1 ∧ Absorbed c.world c'.world m := by
  obtain ⟨tag, hstart⟩ := start_message cfg m c.threads.length hfree
  -- the handler finds everything as it was, but for its own delivery
  obtain ⟨v, hrun, hv⟩ := absorbed { c.world with
      busy := fun d => if d = m.consumer then some c.threads.length else c.world.busy d } hnum
    fun r hr => (hdrawn r hr).ne
  generalize hd : ({ c.world with
    busy := fun d => if d = m.consumer then some c.threads.length else c.world.busy d } : World K)
    = w at hstart hrun hv
  obtain ⟨n, c', hsteps, hworld, hlen⟩ := (system cfg).exists_finished Choice.ok
    (c := ⟨w, c.trace, c.threads ++ [⟨tag, callback m.consumer m.handler⟩]⟩)
    (i := c.threads.length) (List.getElem?_concat_length ..)
  refine ⟨n, c', ?_, ?_, ?_⟩
  · rw [System.steps, if_pos rfl]
    simp only [System.step, hstart]
    exact hsteps
  · rw [hlen, List.length_append]
    rfl
  · have hdone : (callback m.consumer m.handler).run exec (sound id) w
        = (.ok .none, v.release m.consumer) := callback_run hrun
    have hw : c'.world = v.release m.consumer := hworld.trans (congrArg Prod.snd hdone)
    subst hd
    rw [hw]
    refine ⟨hv.memory, hv.anomalies, ?_⟩
    funext d
    simp only [World.release, hv.busy]
    split
    · rename_i hd
      rw [hd, hfree]
    · rfl

/-- **Whatever messages are to come, they can be served one after the other.** -/
theorem exists_served (cfg : Settings) (service : String) (ms : List (Message K))
    (hms : ∀ m ∈ ms, m.Numeric ∧ m.service = service) {c : SysConfig K}
    (hfree : ∀ m ∈ ms, c.world.busy m.consumer = none) (hdrawn : Drawn c.world) :
    ∃ acts c', Serves c.threads.length ms acts
      ∧ (system cfg).steps (fun _ _ => true) c acts = some c'
      ∧ memoryOf c'.world service = ms.foldl Memory.handle (memoryOf c.world service)
      ∧ c'.world.anomalies.length
          = c.world.anomalies.length + (memoryOf c.world service).flagCount ms := by
  induction ms generalizing c with
  | nil => exact ⟨[], c, .nil _, rfl, rfl, rfl⟩
  | cons m ms ih =>
      obtain ⟨hnum, hservice⟩ := hms m (List.mem_cons_self ..)
      obtain ⟨n, c₁, hsteps₁, hlen₁, hhandled⟩ :=
        exists_handled cfg hnum (hfree m (List.mem_cons_self ..)) hdrawn
      obtain ⟨acts, c', hserves, hsteps, hmem, hcount⟩ :=
        ih (fun m' hm' => hms m' (List.mem_cons_of_mem _ hm')) (c := c₁)
          (fun m' hm' => by rw [hhandled.busy]; exact hfree m' (List.mem_cons_of_mem _ hm'))
          (hhandled.drawn hdrawn)
      have hmemory := hhandled.memory
      have hlength := hhandled.length
      rw [hservice] at hmemory hlength
      rw [hmemory] at hmem hcount
      rw [hlen₁] at hserves
      refine ⟨_, c', .cons (n := n) hserves, ?_, hmem, ?_⟩
      · exact ((system cfg).steps_append hsteps₁).trans hsteps
      · rw [hcount, hlength, Memory.flagCount, Nat.add_assoc]

omit [Scalar K] in
/-- What such a schedule hands over is one of the messages. -/
theorem Serves.mem {i : Nat} {ms : List (Message K)} {acts : List (SysAct K)}
    (h : Serves i ms acts) {x : Start K} (hx : .start x ∈ acts) : ∃ m ∈ ms, x = m.start := by
  induction h with
  | nil => cases hx
  | cons _ ih =>
      rcases List.mem_append.mp hx with hx | hx
      · rcases List.mem_cons.mp hx with heq | hx
        · injection heq with heq
          exact ⟨_, List.mem_cons_self .., heq⟩
        · cases List.eq_of_mem_replicate hx
      · obtain ⟨m, hm, heq⟩ := ih hx
        exact ⟨m, List.mem_cons_of_mem _ hm, heq⟩

/-- The same turns, with messages that belong to the others. -/
theorem Serves.schedules {V : Variation K} {i : Nat} {ms ms' : List (Message K)}
    {acts : List (SysAct K)} (h : Serves i ms acts)
    (hms : List.Forall₂ (fun m m' => V.Starts m.start m'.start) ms ms') :
    ∃ acts', Serves i ms' acts' ∧ V.Schedules acts acts' := by
  induction h generalizing ms' with
  | nil i =>
      cases hms
      exact ⟨[], .nil i, .nil⟩
  | @cons i n m ms acts _ ih =>
      cases hms with
      | cons hm hms =>
          obtain ⟨acts', hserves, hacts⟩ := ih hms
          refine ⟨_, .cons (n := n) hserves, List.rel_append (.cons (.start hm) ?_) hacts⟩
          refine List.forall₂_same.mpr fun a ha => ?_
          rw [List.eq_of_mem_replicate ha]
          exact .step i Choice.ok

end HyperTrace.Proof
