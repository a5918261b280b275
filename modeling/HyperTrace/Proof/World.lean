import Mathlib.Data.List.Infix
import HyperTrace.System

/-!
# What a call can and cannot change

`exec` has one branch per call, but any one part of the world is touched by very
few of them. `Changes` says it once, faults included; everything else here reads
one part of the world off it. The tables that only grow add up to `World.Le`, the
order along which the whole system moves: the clock does not go back, ledger rows
stay, and an anomaly keeps its id, its service and its confidence.
-/

namespace HyperTrace.Proof

open HyperTrace Effect

variable {K : Type}

/-- A property of the world before a call and of the world after it survives any fault. -/
theorem faulty_snd {α : Type} {f : Fault} {w : World K} {r : Except Err α × World K}
    {p : World K → Prop} (h₀ : p w) (h₁ : p r.2) : p (faulty f w r).2 := by
  cases f <;> assumption

theorem faulty_ok {α : Type} {f : Fault} {w : World K} {r : Except Err α × World K} {a : α}
    (h : (faulty f w r).1 = .ok a) : f = .none ∧ r.1 = .ok a := by
  cases f with
  | none => exact ⟨rfl, h⟩
  | before e => cases h
  | after e => cases h

/-- The calls that write to the cluster. -/
def isPatch : Op K → Bool
  | .patchDeployment _ _ _ _ => true
  | .patchHpa _ _ _ => true
  | _ => false

/-- **Everything a call can do to the world.** -/
inductive Changes (w : World K) : Op K → World K → Prop where
  | nothing (o : Op K) : Changes w o w
  | uuid4 : Changes w .uuid4 { w with nextUuid := w.nextUuid + 1 }
  | insertAnomaly (row : AnomalyRow K) (h : ∀ r ∈ w.anomalies, r.id ≠ row.id) :
      Changes w (.insertAnomaly row) { w with anomalies := w.anomalies ++ [row] }
  | updateAnomaly (id : Uuid) (cl : AnomalyClassification) (ev : Evidence K) :
      Changes w (.updateAnomaly id cl ev) (w.updateAnomaly id cl ev)
  | insertAction (row : ActionRow K) (h : w.admits row = true) :
      Changes w (.insertAction row) { w with actionsLog := w.actionsLog ++ [row] }
  | basicPublish (p : Payload K) : Changes w (.basicPublish p) (w.enqueue p)
  | settle (consumer : Consumer) (ack : Bool) :
      Changes w (.settle consumer ack) (w.release consumer)
  | patch (o : Op K) (h : isPatch o = true) (cl : Cluster) : Changes w o { w with cluster := cl }
  | saveProfile (service metric : String) (row : BaselineRow K) :
      Changes w (.saveProfile service metric row) (w.saveProfile service metric row)
  | setTrafficZ (service : String) (z : K) :
      Changes w (.setTrafficZ service z) { w with trafficZ := put w.trafficZ service z }
  | other (o : Op K) (ps : List (PolicyRow K)) (ev : String → Option Time)
      (sec : String → Option (Time × String)) :
      Changes w o { w with policies := ps, recentEvents := ev, recentSecurity := sec }

theorem admitsAnomaly_iff [Scalar K] {w : World K} {row : AnomalyRow K} :
    w.admitsAnomaly row = true ↔ (∀ r ∈ w.anomalies, r.id ≠ row.id)
      ∧ confidenceAllowed row.confidence = true := by
  simp [World.admitsAnomaly]

theorem insertAnomaly_admitted [Scalar K] {w : World K} {row : AnomalyRow K}
    (h : w.admitsAnomaly row = true) : (w.insertAnomaly row).1 = .ok () := by
  rw [World.insertAnomaly, if_pos h]

theorem exec_changes [Scalar K] (w : World K) (o : Op K) (c : Choice) :
    Changes w o (exec w o c).2 := by
  cases o with
  | now => exact .nothing _
  | uuid4 => exact .uuid4
  | insertAnomaly row =>
      refine faulty_snd (.nothing _) ?_
      unfold World.insertAnomaly
      split
      · rename_i h
        exact .insertAnomaly row (admitsAnomaly_iff.mp h).1
      · exact .nothing _
  | updateAnomaly id cl ev => exact faulty_snd (.nothing _) (.updateAnomaly id cl ev)
  | insertAction row =>
      refine faulty_snd (.nothing _) ?_
      unfold World.insertAction
      split
      · rename_i h
        exact .insertAction row h
      · exact .nothing _
  | insertPolicy row => exact faulty_snd (.nothing _) (.other _ _ _ _)
  | deletePolicy id => exact faulty_snd (.nothing _) (.other _ _ _ _)
  | saveProfile s m row => exact faulty_snd (.nothing _) (.saveProfile s m row)
  | setTrafficZ s z => exact .setTrafficZ s z
  | setRecentEvent s t => exact .other _ _ _ _
  | setRecentSecurity s e => exact .other _ _ _ _
  | basicPublish p => exact faulty_snd (.nothing _) (.basicPublish p)
  | settle consumer ack => exact faulty_snd (.settle consumer ack) (.settle consumer ack)
  | patchDeployment name ns cont cpu => exact faulty_snd (.nothing _) (.patch _ rfl _)
  | patchHpa name ns max => exact faulty_snd (.nothing _) (.patch _ rfl _)
  | getTrafficZ s => exact .nothing _
  | getRecentEvent s => exact .nothing _
  | getRecentSecurity s => exact .nothing _
  | _ => exact faulty_snd (.nothing _) (.nothing _)

theorem changes_of_exec [Scalar K] {w w' : World K} {o : Op K} {c : Choice} {r : Except Err o.Res}
    (h : exec w o c = (r, w')) : Changes w o w' := by
  have hch := exec_changes w o c
  rwa [h] at hch

namespace Changes

variable {w w' : World K} {o : Op K}

@[simp] theorem enqueue_actionsLog (w : World K) (p : Payload K) :
    (w.enqueue p).actionsLog = w.actionsLog := by
  cases p <;> rfl

@[simp] theorem enqueue_anomalies (w : World K) (p : Payload K) :
    (w.enqueue p).anomalies = w.anomalies := by
  cases p <;> rfl

@[simp] theorem enqueue_clock (w : World K) (p : Payload K) : (w.enqueue p).clock = w.clock := by
  cases p <;> rfl

@[simp] theorem enqueue_nextUuid (w : World K) (p : Payload K) :
    (w.enqueue p).nextUuid = w.nextUuid := by
  cases p <;> rfl

@[simp] theorem enqueue_busy (w : World K) (p : Payload K) : (w.enqueue p).busy = w.busy := by
  cases p <;> rfl

@[simp] theorem enqueue_remediationDelivered (w : World K) (p : Payload K) :
    (w.enqueue p).remediationDelivered = w.remediationDelivered := by
  cases p <;> rfl

@[simp] theorem enqueue_anomalyDelivered (w : World K) (p : Payload K) :
    (w.enqueue p).anomalyDelivered = w.anomalyDelivered := by
  cases p <;> rfl

@[simp] theorem enqueue_baselines (w : World K) (p : Payload K) :
    (w.enqueue p).baselines = w.baselines := by
  cases p <;> rfl

@[simp] theorem enqueue_trafficZ (w : World K) (p : Payload K) :
    (w.enqueue p).trafficZ = w.trafficZ := by
  cases p <;> rfl

theorem clock (h : Changes w o w') : w'.clock = w.clock := by
  cases h <;> simp [World.updateAnomaly, World.release, World.saveProfile]

/-- **Only an insert changes the ledger, and it appends.** -/
theorem actionsLog (h : Changes w o w') :
    w'.actionsLog = w.actionsLog
      ∨ ∃ row, o = .insertAction row ∧ w.admits row = true
          ∧ w'.actionsLog = w.actionsLog ++ [row] := by
  cases h with
  | insertAction row ha => exact Or.inr ⟨row, rfl, ha, rfl⟩
  | basicPublish p => exact Or.inl (enqueue_actionsLog w p)
  | _ => exact Or.inl rfl

theorem nextUuid (h : Changes w o w') :
    w'.nextUuid = w.nextUuid ∨ o = .uuid4 ∧ w'.nextUuid = w.nextUuid + 1 := by
  cases h with
  | uuid4 => exact Or.inr ⟨rfl, rfl⟩
  | basicPublish p => exact Or.inl (enqueue_nextUuid w p)
  | _ => exact Or.inl rfl

/-- Anomalies are inserted under a new id, or have their verdict and evidence replaced. -/
theorem anomalies (h : Changes w o w') :
    w'.anomalies = w.anomalies
      ∨ (∃ row, o = .insertAnomaly row ∧ (∀ r ∈ w.anomalies, r.id ≠ row.id)
          ∧ w'.anomalies = w.anomalies ++ [row])
      ∨ ∃ id cl ev, o = .updateAnomaly id cl ev ∧ w' = w.updateAnomaly id cl ev := by
  cases h with
  | insertAnomaly row hr => exact Or.inr (Or.inl ⟨row, rfl, hr, rfl⟩)
  | updateAnomaly id cl ev => exact Or.inr (Or.inr ⟨id, cl, ev, rfl, rfl⟩)
  | basicPublish p => exact Or.inl (enqueue_anomalies w p)
  | _ => exact Or.inl rfl

theorem remediationQueue (h : Changes w o w') :
    w'.remediationQueue = w.remediationQueue
      ∨ ∃ m, o = .basicPublish (.remediation m)
          ∧ w'.remediationQueue = w.remediationQueue ++ [m] := by
  cases h with
  | basicPublish p =>
      cases p with
      | anomaly m => exact Or.inl rfl
      | remediation m => exact Or.inr ⟨m, rfl, rfl⟩
  | _ => exact Or.inl rfl

theorem anomalyQueue (h : Changes w o w') :
    w'.anomalyQueue = w.anomalyQueue
      ∨ ∃ m, o = .basicPublish (.anomaly m) ∧ w'.anomalyQueue = w.anomalyQueue ++ [m] := by
  cases h with
  | basicPublish p =>
      cases p with
      | anomaly m => exact Or.inr ⟨m, rfl, rfl⟩
      | remediation m => exact Or.inl rfl
  | _ => exact Or.inl rfl

theorem remediationDelivered (h : Changes w o w') :
    w'.remediationDelivered = w.remediationDelivered := by
  cases h <;> simp [World.updateAnomaly, World.release, World.saveProfile]

theorem anomalyDelivered (h : Changes w o w') : w'.anomalyDelivered = w.anomalyDelivered := by
  cases h <;> simp [World.updateAnomaly, World.release, World.saveProfile]

/-- Only a save changes a baseline, and it puts the row there. -/
theorem baselines (h : Changes w o w') :
    w'.baselines = w.baselines
      ∨ ∃ service metric row, o = .saveProfile service metric row
          ∧ w' = w.saveProfile service metric row := by
  cases h with
  | saveProfile service metric row => exact Or.inr ⟨service, metric, row, rfl, rfl⟩
  | basicPublish p => exact Or.inl (enqueue_baselines w p)
  | _ => exact Or.inl rfl

theorem trafficZ (h : Changes w o w') :
    w'.trafficZ = w.trafficZ
      ∨ ∃ service z, o = .setTrafficZ service z ∧ w'.trafficZ = put w.trafficZ service z := by
  cases h with
  | setTrafficZ service z => exact Or.inr ⟨service, z, rfl, rfl⟩
  | basicPublish p => exact Or.inl (enqueue_trafficZ w p)
  | _ => exact Or.inl rfl

@[simp] theorem enqueue_cluster (w : World K) (p : Payload K) :
    (w.enqueue p).cluster = w.cluster := by
  cases p <;> rfl

/-- Only a patch changes the cluster. -/
theorem cluster (h : Changes w o w') (ho : isPatch o = false) : w'.cluster = w.cluster := by
  cases h with
  | patch _ hpatch => rw [ho] at hpatch; cases hpatch
  | basicPublish p => exact enqueue_cluster w p
  | _ => rfl

/-- A consumer only becomes free by settling its delivery. -/
theorem busy (h : Changes w o w') (consumer : Consumer) :
    w'.busy consumer = w.busy consumer ∨ ∃ ack, o = .settle consumer ack := by
  cases h with
  | settle consumer' ack =>
      by_cases hc : consumer = consumer'
      · exact Or.inr ⟨ack, by rw [hc]⟩
      · exact Or.inl (if_neg hc)
  | basicPublish p => exact Or.inl (by rw [enqueue_busy])
  | _ => exact Or.inl rfl

end Changes

/-! ## What calls answer -/

theorem exec_now [Scalar K] {w : World K} {c : Choice} {t : Time}
    (h : (exec w .now c).1 = .ok t) : t = w.clock :=
  (Except.ok.inj h).symm

theorem exec_uuid4 [Scalar K] {w : World K} {c : Choice} {id : Uuid}
    (h : (exec w .uuid4 c).1 = .ok id) :
    id = w.nextUuid ∧ (exec w .uuid4 c).2.nextUuid = w.nextUuid + 1 :=
  ⟨(Except.ok.inj h).symm, rfl⟩

/-- An insert that was answered is in the ledger. -/
theorem exec_insertAction [Scalar K] {w : World K} {row : ActionRow K} {c : Choice} {a : Unit}
    (h : (exec w (.insertAction row) c).1 = .ok a) :
    w.admits row = true
      ∧ (exec w (.insertAction row) c).2.actionsLog = w.actionsLog ++ [row] := by
  obtain ⟨hf, hr⟩ := faulty_ok h
  cases ha : w.admits row with
  | false => simp [World.insertAction, ha] at hr
  | true => exact ⟨rfl, by simp [exec, faulty, hf, World.insertAction, ha]⟩

theorem exec_insertAnomaly [Scalar K] {w : World K} {row : AnomalyRow K} {c : Choice} {a : Unit}
    (h : (exec w (.insertAnomaly row) c).1 = .ok a) :
    (exec w (.insertAnomaly row) c).2.anomalies = w.anomalies ++ [row] := by
  obtain ⟨hf, hr⟩ := faulty_ok h
  unfold World.insertAnomaly at hr
  split at hr
  · rename_i hid
    simp only [exec, faulty, hf, World.insertAnomaly, hid, ↓reduceIte]
  · cases hr

theorem exec_latestAction_eq [Scalar K] {w : World K} {a : Uuid} {res : ActionResult} {c : Choice}
    {row : Option (ActionRow K)} (h : (exec w (.latestAction a res) c).1 = .ok row) :
    c.fault = .none ∧ w.latestAction c.tie a res = row := by
  obtain ⟨hf, hr⟩ := faulty_ok h
  exact ⟨hf, Except.ok.inj hr⟩

theorem exec_latestAction [Scalar K] {w : World K} {a : Uuid} {res : ActionResult} {c : Choice}
    {row : ActionRow K} (h : (exec w (.latestAction a res) c).1 = .ok (some row)) :
    row ∈ w.actionsLog ∧ row.anomalyId = some a ∧ row.result = res := by
  obtain ⟨_, hr⟩ := faulty_ok h
  have hmem := List.mem_of_head? (Except.ok.inj hr)
  simpa using hmem

theorem exec_actionById [Scalar K] {w : World K} {id : Uuid} {c : Choice} {row : ActionRow K}
    (h : (exec w (.actionById id) c).1 = .ok (some row)) :
    row ∈ w.actionsLog ∧ row.id = id := by
  obtain ⟨_, hr⟩ := faulty_ok h
  have hfind := Except.ok.inj hr
  exact ⟨List.mem_of_find?_eq_some hfind, by simpa using List.find?_some hfind⟩

theorem exec_actionById_eq [Scalar K] {w : World K} {id : Uuid} {c : Choice}
    {row : Option (ActionRow K)} (h : (exec w (.actionById id) c).1 = .ok row) :
    w.actionById id = row := by
  obtain ⟨_, hr⟩ := faulty_ok h
  exact Except.ok.inj hr

theorem exec_readDeployment [Scalar K] {w : World K} {name ns : String} {c : Choice}
    {d : Deployment} (h : (exec w (.readDeployment name ns) c).1 = .ok d) :
    w.cluster.deployment ns name = some d := by
  obtain ⟨_, hr⟩ := faulty_ok h
  dsimp only at hr
  split at hr
  · rename_i d' hd
    rw [hd, Except.ok.inj hr]
  · cases hr

theorem exec_listHpas [Scalar K] {w : World K} {ns : String} {c : Choice} {hpas : List Hpa}
    (h : (exec w (.listHpas ns) c).1 = .ok hpas) : w.cluster.hpas ns = hpas := by
  obtain ⟨_, hr⟩ := faulty_ok h
  exact Except.ok.inj hr

theorem exec_anomalyService [Scalar K] {w : World K} {id : Uuid} {c : Choice}
    {service : Option String} (h : (exec w (.anomalyService id) c).1 = .ok service) :
    service = (w.anomalies.find? fun r => r.id = id).map AnomalyRow.service := by
  obtain ⟨_, hr⟩ := faulty_ok h
  exact (Except.ok.inj hr).symm

theorem exec_selectPolicies [Scalar K] {w : World K} {c : Choice} {rows : List (PolicyRow K)}
    (h : (exec w .selectPolicies c).1 = .ok rows) :
    rows.Perm w.policies ∧ rows.Pairwise fun a b => a.priority ≤ b.priority := by
  obtain ⟨_, hr⟩ := faulty_ok h
  have hrows : orderBy PolicyRow.priority c.tie w.policies = rows := Except.ok.inj hr
  exact hrows ▸ ⟨orderBy_perm .., orderBy_sorted ..⟩

theorem exec_countActions [Scalar K] {w : World K} {since : Time} {rs : List ActionResult}
    {s : Option String} {c : Choice} {n : Nat}
    (h : (exec w (.countActions since rs s) c).1 = .ok n) :
    n = w.actionsLog.countP (counted since rs s) := by
  obtain ⟨_, hr⟩ := faulty_ok h
  exact (Except.ok.inj hr).symm

theorem patchDeployment_error {c : Cluster} {name ns container : String} {cpu : Json K} {e : Err}
    (h : (c.patchDeployment name ns container cpu).1 = .error e) :
    (c.patchDeployment name ns container cpu).2 = c := by
  unfold Cluster.patchDeployment at h ⊢
  split at h
  · rfl
  · dsimp only at h ⊢
    split at h
    · cases h
    · rfl

theorem patchHpa_error {c : Cluster} {name ns : String} {max : Json K} {e : Err}
    (h : (c.patchHpa name ns max).1 = .error e) : (c.patchHpa name ns max).2 = c := by
  unfold Cluster.patchHpa at h ⊢
  split at h
  · rfl
  · dsimp only at h ⊢
    split at h
    · cases h
    · rfl

/-- A patch that raises has changed nothing, unless its confirmation was lost. -/
theorem exec_patch_raised [Scalar K] {w : World K} {o : Op K} {c : Choice} {e : Err}
    (ho : isPatch o = true) (hf : ∀ e, c.fault ≠ .after e) (h : (exec w o c).1 = .error e) :
    (exec w o c).2.cluster = w.cluster := by
  cases hfault : c.fault with
  | after e => exact absurd hfault (hf e)
  | before e =>
      cases o with
      | patchDeployment name ns container cpu => simp only [exec, faulty, hfault]
      | patchHpa name ns max => simp only [exec, faulty, hfault]
      | _ => cases ho
  | none =>
      cases o with
      | patchDeployment name ns container cpu =>
          simp only [exec, faulty, hfault] at h ⊢
          exact patchDeployment_error h
      | patchHpa name ns max =>
          simp only [exec, faulty, hfault] at h ⊢
          exact patchHpa_error h
      | _ => cases ho

/-! ## The order of the world -/

/-- An anomaly is still there, under its id, with its service and its confidence. -/
def AnomalyKept (r r' : AnomalyRow K) : Prop :=
  r'.id = r.id ∧ r'.service = r.service ∧ r'.confidence = r.confidence

/-- Nothing the services rely on is ever taken back. -/
structure World.Le (w w' : World K) : Prop where
  clock : w.clock ≤ w'.clock
  nextUuid : w.nextUuid ≤ w'.nextUuid
  actionsLog : w.actionsLog <+: w'.actionsLog
  anomalyDelivered : w.anomalyDelivered <+: w'.anomalyDelivered
  remediationDelivered : w.remediationDelivered <+: w'.remediationDelivered
  anomalies : ∀ r ∈ w.anomalies, ∃ r' ∈ w'.anomalies, AnomalyKept r r'

theorem World.Le.refl (w : World K) : World.Le w w :=
  ⟨le_refl _, le_refl _, List.prefix_rfl, List.prefix_rfl, List.prefix_rfl,
    fun r hr => ⟨r, hr, rfl, rfl, rfl⟩⟩

theorem World.Le.trans {u v w : World K} (h : World.Le u v) (h' : World.Le v w) :
    World.Le u w := by
  refine ⟨h.clock.trans h'.clock, h.nextUuid.trans h'.nextUuid,
    h.actionsLog.trans h'.actionsLog, h.anomalyDelivered.trans h'.anomalyDelivered,
    h.remediationDelivered.trans h'.remediationDelivered, fun r hr => ?_⟩
  obtain ⟨r', hr', hid, hs, hc⟩ := h.anomalies r hr
  obtain ⟨r'', hr'', hid', hs', hc'⟩ := h'.anomalies r' hr'
  exact ⟨r'', hr'', hid'.trans hid, hs'.trans hs, hc'.trans hc⟩

theorem kept_of_eq {l l' : List (AnomalyRow K)} (h : l' = l) :
    ∀ r ∈ l, ∃ r' ∈ l', AnomalyKept r r' :=
  fun r hr => ⟨r, h ▸ hr, rfl, rfl, rfl⟩

theorem Changes.le {w w' : World K} {o : Op K} (h : Changes w o w') : World.Le w w' where
  clock := le_of_eq h.clock.symm
  nextUuid := by rcases h.nextUuid with h | ⟨_, h⟩ <;> rw [h]; exact Nat.le_succ _
  actionsLog := by
    rcases h.actionsLog with h | ⟨row, _, _, h⟩
    · rw [h]
    · rw [h]; exact List.prefix_append _ _
  anomalyDelivered := by rw [h.anomalyDelivered]
  remediationDelivered := by rw [h.remediationDelivered]
  anomalies r hr := by
    rcases h.anomalies with h | ⟨row, _, _, h⟩ | ⟨id, cl, ev, _, h⟩
    · exact kept_of_eq h r hr
    · exact ⟨r, h ▸ List.mem_append_left _ hr, rfl, rfl, rfl⟩
    · rw [h]
      refine ⟨_, List.mem_map_of_mem hr, ?_⟩
      split <;> exact ⟨rfl, rfl, rfl⟩

theorem env_le (w : World K) (e : Env) : World.Le w (w.env e) := by
  cases e with
  | tick n =>
      exact ⟨by simp [World.env], le_refl _, List.prefix_rfl, List.prefix_rfl, List.prefix_rfl,
        kept_of_eq rfl⟩
  | _ =>
      exact ⟨le_refl _, le_refl _, List.prefix_rfl, List.prefix_rfl, List.prefix_rfl,
        kept_of_eq rfl⟩

/-! ## Starting a thread -/

/-- The consumer a thread occupies; an API request occupies none. -/
def consumerOf : Tag K → Option Consumer
  | .traffic _ => some .behaviourTraffic
  | .cost _ => some .behaviourCost
  | .lifecycle _ => some .decisionLifecycle
  | .security _ => some .decisionSecurity
  | .anomaly _ => some .decisionAnomalies
  | .execute _ => some .executorActions
  | _ => none

/-- **Everything a start can do to the world**, by the tag of the thread it leads to. -/
structure Starts (w : World K) (n : Nat) (tag : Tag K) (w' : World K) : Prop where
  clock : w'.clock = w.clock
  nextUuid : w'.nextUuid = w.nextUuid
  actionsLog : w'.actionsLog = w.actionsLog
  anomalies : w'.anomalies = w.anomalies
  baselines : w'.baselines = w.baselines
  trafficZ : w'.trafficZ = w.trafficZ
  busy : ∀ consumer, w'.busy consumer =
    if consumerOf tag = some consumer then some n else w.busy consumer
  free : ∀ consumer, consumerOf tag = some consumer → w.busy consumer = none
  remediation : (∃ m k, tag = .execute m ∧ w.remediationQueue[k]? = some m
      ∧ w'.remediationQueue = w.remediationQueue.eraseIdx k
      ∧ w'.remediationDelivered = w.remediationDelivered ++ [m])
    ∨ (∀ m, tag ≠ .execute m) ∧ w'.remediationQueue = w.remediationQueue
      ∧ w'.remediationDelivered = w.remediationDelivered
  anomaly : (∃ m k, tag = .anomaly m ∧ w.anomalyQueue[k]? = some m
      ∧ w'.anomalyQueue = w.anomalyQueue.eraseIdx k
      ∧ w'.anomalyDelivered = w.anomalyDelivered ++ [m])
    ∨ (∀ m, tag ≠ .anomaly m) ∧ w'.anomalyQueue = w.anomalyQueue
      ∧ w'.anomalyDelivered = w.anomalyDelivered

theorem take_eq {w w' : World K} {consumer : Consumer} {n : Nat}
    (h : w.take consumer n = some w') :
    w.busy consumer = none
      ∧ w' = { w with busy := fun c => if c = consumer then some n else w.busy c } := by
  unfold World.take at h
  split at h
  · rename_i hb
    exact ⟨hb, (Option.some.inj h).symm⟩
  · cases h

theorem Starts.le {w w' : World K} {n : Nat} {tag : Tag K} (h : Starts w n tag w') :
    World.Le w w' where
  clock := le_of_eq h.clock.symm
  nextUuid := le_of_eq h.nextUuid.symm
  actionsLog := by rw [h.actionsLog]
  anomalyDelivered := by
    rcases h.anomaly with ⟨m, k, _, _, _, hd⟩ | ⟨_, _, hd⟩
    · rw [hd]; exact List.prefix_append _ _
    · rw [hd]
  remediationDelivered := by
    rcases h.remediation with ⟨m, k, _, _, _, hd⟩ | ⟨_, _, hd⟩
    · rw [hd]; exact List.prefix_append _ _
    · rw [hd]
  anomalies := kept_of_eq h.anomalies

/-- A consumer that takes a delivery from outside the modelled queues. -/
theorem starts_of_take {w w' : World K} {consumer : Consumer} {n : Nat} {tag : Tag K}
    (h : w.take consumer n = some w') (ht : consumerOf tag = some consumer)
    (he : ∀ m, tag ≠ .execute m) (ha : ∀ m, tag ≠ .anomaly m) : Starts w n tag w' := by
  obtain ⟨hb, rfl⟩ := take_eq h
  refine ⟨rfl, rfl, rfl, rfl, rfl, rfl, fun c => ?_, fun c hc => ?_, Or.inr ⟨he, rfl, rfl⟩,
    Or.inr ⟨ha, rfl, rfl⟩⟩
  · simp only [ht, Option.some.injEq, eq_comm]
  · rw [ht] at hc
    exact Option.some.inj hc ▸ hb

/-- A request to the API takes nothing. -/
theorem starts_of_request {w : World K} {n : Nat} {tag : Tag K} (ht : consumerOf tag = none) :
    Starts w n tag w := by
  refine ⟨rfl, rfl, rfl, rfl, rfl, rfl, fun c => ?_, fun c hc => ?_, Or.inr ⟨?_, rfl, rfl⟩,
    Or.inr ⟨?_, rfl, rfl⟩⟩
  · simp [ht]
  · simp [ht] at hc
  · intro m h
    subst h
    cases ht
  · intro m h
    subst h
    cases ht

theorem begin_starts {w w' : World K} {n : Nat} {x : Start K} {tag : Tag K}
    (h : begin w n x = some (w', tag)) : Starts w n tag w' := by
  cases x with
  -- the two queues: the message is taken off, and marked as delivered
  | anomaly k =>
      simp only [begin] at h
      split at h
      · cases h
      · rename_i m hm
        obtain ⟨w₁, ht, heq⟩ := Option.map_eq_some_iff.mp h
        cases heq
        obtain ⟨hb, rfl⟩ := take_eq ht
        refine ⟨rfl, rfl, rfl, rfl, rfl, rfl, fun c => ?_, fun c hc => ?_, Or.inr ⟨?_, rfl, rfl⟩,
          Or.inl ⟨m, k, rfl, hm, rfl, rfl⟩⟩
        · simp only [consumerOf, Option.some.injEq, eq_comm]
        · cases hc; exact hb
        · intro m' hx
          cases hx
  | remediation k =>
      simp only [begin] at h
      split at h
      · cases h
      · rename_i m hm
        obtain ⟨w₁, ht, heq⟩ := Option.map_eq_some_iff.mp h
        cases heq
        obtain ⟨hb, rfl⟩ := take_eq ht
        refine ⟨rfl, rfl, rfl, rfl, rfl, rfl, fun c => ?_, fun c hc => ?_,
          Or.inl ⟨m, k, rfl, hm, rfl, rfl⟩, Or.inr ⟨?_, rfl, rfl⟩⟩
        · simp only [consumerOf, Option.some.injEq, eq_comm]
        · cases hc; exact hb
        · intro m' hx
          cases hx
  | approve user a => cases h; exact starts_of_request rfl
  | rollback user a => cases h; exact starts_of_request rfl
  | createPolicy user policy => cases h; exact starts_of_request rfl
  | deletePolicy user id => cases h; exact starts_of_request rfl
  | _ =>
      obtain ⟨w₁, ht, heq⟩ := Option.map_eq_some_iff.mp h
      cases heq
      exact starts_of_take ht rfl (by rintro m ⟨⟩) (by rintro m ⟨⟩)

section

variable [Scalar K] {cfg : Settings}

theorem start_starts {w w' : World K} {n : Nat} {x : Start K} {tag : Tag K} {p : Py K Reply}
    (h : (system cfg).start w n x = some (w', tag, p)) :
    Starts w n tag w' ∧ p = program cfg tag := by
  simp only [system, Option.map_eq_some_iff, Prod.exists, Prod.mk.injEq] at h
  obtain ⟨w₁, tag₁, hb, rfl, rfl, rfl⟩ := h
  exact ⟨begin_starts hb, rfl⟩

/-- **The system only moves up.** -/
theorem grows (cfg : Settings) : (system (K := K) cfg).Grows World.Le where
  refl := World.Le.refl
  trans := World.Le.trans
  exec w o c := (exec_changes w o c).le
  start h := (start_starts h).1.le
  env := env_le

end

end HyperTrace.Proof
