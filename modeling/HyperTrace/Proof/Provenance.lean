import HyperTrace.Proof.Calls

/-!
# Where things come from

Rows, messages and patches do not appear by themselves. Each lemma here leads from
something found in the world of a run, or in its trace, to the call that put it
there, and from the call to the handler that made it and what that handler had
read by then.
-/

namespace HyperTrace.Proof

open HyperTrace Effect

variable {K : Type} [Scalar K]

variable {cfg : Settings} {P : SysConfig K → SysAct K → Prop} {w : World K} {c : SysConfig K}

/-- No message is put on the remediation queue but by the services. -/
def noForgery (_ : SysConfig K) : SysAct K → Bool
  | .env (.forge _) => false
  | _ => true

/-! ## From the world to the trace -/

/-- **Every ledger row was there from the start or was inserted.** -/
theorem row_inserted (h : (system cfg).Run P w c) {row : ActionRow K}
    (hrow : row ∈ c.world.actionsLog) :
    row ∈ w.actionsLog ∨ ∃ e pre, e :: pre <:+ c.trace ∧ e.op = .insertAction row
      ∧ e.before.admits row = true ∧ row ∉ e.before.actionsLog
      ∧ e.after.actionsLog = e.before.actionsLog ++ [row] := by
  refine Or.imp_right ?_ (h.arises (F := fun w => row ∈ w.actionsLog) ?_ ?_ hrow)
  · intro hx
    obtain ⟨e, pre, he, hb, ha⟩ := hx
    rcases (changes_of_suffix h he).actionsLog with hsame | ⟨row', hop, hadm, happ⟩
    · rw [hsame] at ha
      exact absurd ha hb
    · rw [happ, List.mem_append, List.mem_singleton] at ha
      obtain rfl := ha.resolve_left hb
      exact ⟨e, pre, he, hop, hadm, hb, happ⟩
  · intro c x w' tag p _ _ hs hrow
    exact (start_starts hs).1.actionsLog ▸ hrow
  · intro c e _ _ hrow
    cases e <;> exact hrow

/--
**What holds of every anomaly row**: whatever holds of each row that is inserted, and
is kept by each update.
-/
theorem all_anomalies {Q : AnomalyRow K → Prop} (h : (system cfg).Run P (World.empty K) c)
    (hinsert : ∀ e pre row, e :: pre <:+ c.trace → e.op = .insertAnomaly row → Q row)
    (hupdate : ∀ e pre id cl ev a, e :: pre <:+ c.trace → e.op = .updateAnomaly id cl ev → Q a →
      Q { a with classification := cl, evidence := ev }) : ∀ a ∈ c.world.anomalies, Q a := by
  by_contra hF
  push Not at hF
  -- suppose it fails of one; look at the call that made it fail
  have harise := h.arises (F := fun w => ∃ a ∈ w.anomalies, ¬ Q a) ?_ ?_ hF
  · rcases harise with ⟨a, ha, _⟩ | ⟨e, pre, he, hb, a, ha, hne⟩
    · cases ha
    · push Not at hb
      rcases (changes_of_suffix h he).anomalies with hsame | ⟨row, hop, _, happ⟩ |
        ⟨id, cl, ev, hop, hupd⟩
      · exact hne (hb a (hsame ▸ ha))
      · rw [happ, List.mem_append, List.mem_singleton] at ha
        rcases ha with ha | rfl
        · exact hne (hb a ha)
        · exact hne (hinsert e pre a he hop)
      · rw [hupd] at ha
        obtain ⟨a₀, ha₀, rfl⟩ := List.mem_map.mp ha
        split at hne
        · exact hne (hupdate e pre id cl ev a₀ he hop (hb a₀ ha₀))
        · exact hne (hb a₀ ha₀)
  · intro c x w' tag p _ _ hs hF
    rw [← (start_starts hs).1.anomalies]
    exact hF
  · intro c e _ _ hF
    cases e <;> exact hF

section Queue

/-! What waits in a queue, or was taken from it, when a message is taken, repeated or added. -/

variable {α : Type} {q d : List α} {m m' : α}

theorem waits_of_taken {k : Nat} (hk : q[k]? = some m') (hm : m ∈ q.eraseIdx k ∨ m ∈ d ++ [m']) :
    m ∈ q ∨ m ∈ d := by
  rcases hm with hm | hm
  · exact Or.inl (List.mem_of_mem_eraseIdx hm)
  · rcases List.mem_append.mp hm with hm | hm
    · exact Or.inr hm
    · obtain rfl := List.mem_singleton.mp hm
      exact Or.inl (List.mem_of_getElem? hk)

theorem waits_of_repeated {n : Nat} (hm : m ∈ q ++ d[n]?.toList ∨ m ∈ d) : m ∈ q ∨ m ∈ d := by
  rcases hm with hm | hm
  · rcases List.mem_append.mp hm with hm | hm
    · exact Or.inl hm
    · exact Or.inr (List.mem_of_getElem? (Option.mem_toList.mp hm))
  · exact Or.inr hm

theorem eq_of_added (hm : m ∈ q ++ [m'] ∨ m ∈ d) (hnew : ¬ (m ∈ q ∨ m ∈ d)) : m = m' := by
  rcases hm with hm | hm
  · rcases List.mem_append.mp hm with hm | hm
    · exact absurd (Or.inl hm) hnew
    · exact List.mem_singleton.mp hm
  · exact absurd (Or.inr hm) hnew

end Queue

/-- A message the executor has been or will be given. -/
def Requested (w : World K) (m : RemediationMessage) : Prop :=
  m ∈ w.remediationQueue ∨ m ∈ w.remediationDelivered

/-- **Without forgery every request was published by a service.** -/
theorem request_published (hP : ∀ c a, P c a → noForgery c a = true) (h : (system cfg).Run P w c)
    {m : RemediationMessage} (hm : Requested c.world m) :
    Requested w m ∨ ∃ e pre, e :: pre <:+ c.trace ∧ e.op = .basicPublish (.remediation m) := by
  refine Or.imp_right ?_ (h.arises (F := fun w => Requested w m) ?_ ?_ hm)
  · intro hx
    obtain ⟨e, pre, he, hb, ha⟩ := hx
    have hch := changes_of_suffix h he
    refine ⟨e, pre, he, ?_⟩
    -- the call that made it requested put it on the queue
    rcases hch.remediationQueue with hq | ⟨m', hop, hq⟩
    · rw [Requested, hq, hch.remediationDelivered] at ha
      exact absurd ha hb
    · rw [Requested, hq, hch.remediationDelivered] at ha
      rw [eq_of_added ha hb]
      exact hop
  · intro c x w' tag p _ _ hs hm
    rcases (start_starts hs).1.remediation with ⟨m', k, _, hk, hq, hd⟩ | ⟨_, hq, hd⟩
    · rw [Requested, hq, hd] at hm
      exact waits_of_taken hk hm
    · rwa [Requested, hq, hd] at hm
  -- the broker only repeats what was delivered, forgery being excluded
  · intro c e _ hp hm
    cases e with
    | forge m' => cases hP _ _ hp
    | redeliverRemediation n => exact waits_of_repeated hm
    | _ => exact hm

/-- An anomaly message the decision engine has been or will be given. -/
def Flagged (w : World K) (m : AnomalyMessage K) : Prop :=
  m ∈ w.anomalyQueue ∨ m ∈ w.anomalyDelivered

/-- **Every anomaly message was published by a service.** -/
theorem anomaly_published (h : (system cfg).Run P w c) {m : AnomalyMessage K}
    (hm : Flagged c.world m) :
    Flagged w m ∨ ∃ e pre, e :: pre <:+ c.trace ∧ e.op = .basicPublish (.anomaly m) := by
  refine Or.imp_right ?_ (h.arises (F := fun w => Flagged w m) ?_ ?_ hm)
  · intro hx
    obtain ⟨e, pre, he, hb, ha⟩ := hx
    have hch := changes_of_suffix h he
    refine ⟨e, pre, he, ?_⟩
    -- the call that made it flagged put it on the queue
    rcases hch.anomalyQueue with hq | ⟨m', hop, hq⟩
    · rw [Flagged, hq, hch.anomalyDelivered] at ha
      exact absurd ha hb
    · rw [Flagged, hq, hch.anomalyDelivered] at ha
      rw [eq_of_added ha hb]
      exact hop
  · intro c x w' tag p _ _ hs hm
    rcases (start_starts hs).1.anomaly with ⟨m', k, _, hk, hq, hd⟩ | ⟨_, hq, hd⟩
    · rw [Flagged, hq, hd] at hm
      exact waits_of_taken hk hm
    · rwa [Flagged, hq, hd] at hm
  · intro c e _ _ hm
    cases e with
    | redeliverAnomaly n => exact waits_of_repeated hm
    | _ => exact hm

/-- What a consumer handles was delivered to it. -/
theorem delivered_of_thread (h : (system cfg).Run P w c) {i : Nat}
    {t : Thread (Op K) Op.Res Err (Tag K) Reply} (ht : c.threads[i]? = some t) :
    (∀ m, t.tag = .execute m → Requested c.world m)
      ∧ ∀ m, t.tag = .anomaly m → Flagged c.world m := by
  have hdel := h.of_thread (grows cfg) (F := fun tag w =>
    (∀ m, tag = .execute m → m ∈ w.remediationDelivered)
      ∧ ∀ m, tag = .anomaly m → m ∈ w.anomalyDelivered) ?_ ?_ ht
  · exact ⟨fun m hm => Or.inr (hdel.1 m hm), fun m hm => Or.inr (hdel.2 m hm)⟩
  · intro w n x w' tag p hs
    obtain ⟨hst, _⟩ := start_starts hs
    refine ⟨fun m hm => ?_, fun m hm => ?_⟩
    · rcases hst.remediation with ⟨m', k, htag, _, _, hd⟩ | ⟨hne, _⟩
      · obtain rfl : m = m' := by rw [hm] at htag; cases htag; rfl
        rw [hd]
        exact List.mem_append_right _ (List.mem_singleton_self _)
      · exact absurd hm (hne m)
    · rcases hst.anomaly with ⟨m', k, htag, _, _, hd⟩ | ⟨hne, _⟩
      · obtain rfl : m = m' := by rw [hm] at htag; cases htag; rfl
        rw [hd]
        exact List.mem_append_right _ (List.mem_singleton_self _)
      · exact absurd hm (hne m)
  · intro tag w w' hle hx
    obtain ⟨he, ha⟩ := hx
    exact ⟨fun m hm => hle.remediationDelivered.subset (he m hm),
      fun m hm => hle.anomalyDelivered.subset (ha m hm)⟩

/-! ## From a call to the handler that made it -/

/-- The threads that act at all. -/
inductive Acting (cfg : Settings) : Tag K → History K → Op K → Prop where
  | traffic {m : TrafficSample K} {t : History K} {o : Op K} :
      Behaviour.MayTraffic m t o → Acting cfg (.traffic m) t o
  | detector {m : CostEvent K} {t : History K} {o : Op K} :
      Behaviour.May m t o → Acting cfg (.cost m) t o
  | decision {ma : AnomalyMessage K} {t : History K} {o : Op K} :
      Decision.May cfg.decision ma t o → Acting cfg (.anomaly ma) t o
  | approve {user : Api.User} {anomalyId : Uuid} {t : History K} {o : Op K} :
      Api.May (Api.Approves user anomalyId) t o → Acting cfg (.approve user anomalyId) t o
  | rollback {user : Api.User} {anomalyId : Uuid} {t : History K} {o : Op K} :
      Api.May (Api.Reverses user anomalyId) t o → Acting cfg (.rollback user anomalyId) t o
  | executor {m : RemediationMessage} {t : History K} {o : Op K} :
      Executor.May cfg.executor m t o → Acting cfg (.execute m) t o
  | settle (tag : Tag K) (t : History K) (consumer : Consumer) (ack : Bool) :
      Acting cfg tag t (.settle consumer ack)

theorem acting {tag : Tag K} {t : History K} {o : Op K} (h : Calls cfg tag t o)
    (ho : acts o = true) : Acting cfg tag t o := by
  have hread : ∀ {b : Prop}, acts o = false → b := fun hf => by simp [ho] at hf
  -- a security or lifecycle handler, and the policy calls, only read
  cases tag with
  | traffic m =>
      cases h with
      | handle hmay => exact .traffic hmay
      | settle => exact .settle ..
  | cost m =>
      cases h with
      | handle hmay => exact .detector hmay
      | settle => exact .settle ..
  | lifecycle m =>
      cases h with
      | handle hmay => exact hread hmay
      | settle => exact .settle ..
  | security m =>
      cases h with
      | handle hmay => exact hread hmay
      | settle => exact .settle ..
  | anomaly ma =>
      cases h with
      | handle hmay => exact .decision hmay
      | settle => exact .settle ..
  | approve user a => exact .approve h
  | rollback user a => exact .rollback h
  | createPolicy user p => exact hread h
  | deletePolicy user id => exact hread h
  | execute m =>
      cases h with
      | handle hmay => exact .executor hmay
      | settle => exact .settle ..

/-- What the executor may do, other than patch. -/
theorem executor_inserts {m : RemediationMessage} {t : History K} {o : Op K}
    (h : Executor.May cfg.executor m t o) (ho : acts o = true) (hp : isPatch o = false) :
    ∃ req h now id res extra, Executor.parseRequest m = .ok req
      ∧ Executor.Answers cfg.executor req h res extra
      ∧ o = .insertAction (Executor.outcomeRow cfg.executor id now req res extra)
      ∧ t = ⟨.uuid4, .ok id⟩ :: ⟨.now, .ok now⟩ :: h := by
  cases h with
  | read hread => simp [ho] at hread
  | patch _ hc => simp [hc.isPatch] at hp
  | reverse _ hr => simp [hr.isPatch] at hp
  | insert hreq ha => exact ⟨_, _, _, _, _, _, hreq, ha, rfl, rfl⟩

/-- **Who publishes a request, and on what.** -/
inductive PublishedBy (cfg : Settings) (m : RemediationMessage) : Tag K → History K → Prop where
  | decision {ma : AnomalyMessage K} {h t : History K} {policy : PolicyRow K}
      {action : RemediationAction} {mode : String} {id : Uuid} {now : Time} :
      Decision.Decides cfg.decision ma h policy action .dispatched mode →
      m = Decision.remediationRequest id ma.id ma.service action.value →
      Attempts (.remediation m) (Decision.written ma h id now action .dispatched mode) t →
      PublishedBy cfg m (.anomaly ma) t
  | approve {user : Api.User} {anomalyId : Uuid} {h t : History K} {d : Api.Dispatch} {id : Uuid}
      {now : Time} : Api.Approves user anomalyId h d → m = d.request id →
      Attempts (.remediation m) (Api.dispatched h d id now) t →
      PublishedBy cfg m (.approve user anomalyId) t
  | rollback {user : Api.User} {anomalyId : Uuid} {h t : History K} {d : Api.Dispatch} {id : Uuid}
      {now : Time} : Api.Reverses user anomalyId h d → m = d.request id →
      Attempts (.remediation m) (Api.dispatched h d id now) t →
      PublishedBy cfg m (.rollback user anomalyId) t

theorem published_by {tag : Tag K} {t : History K} {m : RemediationMessage}
    (h : Calls cfg tag t (.basicPublish (.remediation m))) : PublishedBy cfg m tag t := by
  cases acting h rfl with
  | traffic hmay => cases hmay
  | detector hmay =>
      cases hmay with
      | early _ ho => cases ho
  | decision hmay =>
      cases hmay with
      | read ho => cases ho
      | publish hd hatt => exact .decision hd rfl hatt
  | approve hmay =>
      cases hmay with
      | read ho => cases ho
      | publish hd hatt => exact .approve hd rfl hatt
  | rollback hmay =>
      cases hmay with
      | read ho => cases ho
      | publish hd hatt => exact .rollback hd rfl hatt
  | executor hmay =>
      obtain ⟨_, _, _, _, _, _, _, _, ho, _⟩ := executor_inserts hmay rfl rfl
      cases ho

/-- **Who writes a ledger row, and on what.** -/
inductive InsertedBy (cfg : Settings) : ActionRow K → Tag K → History K → Prop where
  | decision {ma : AnomalyMessage K} {h : History K} {policy : PolicyRow K}
      {action : RemediationAction} {res : ActionResult} {mode : String} {id : Uuid} {now : Time} :
      Decision.Decides cfg.decision ma h policy action res mode →
      InsertedBy cfg (Decision.decisionRow id ma.id action now res ma.service mode) (.anomaly ma)
        (⟨.now, .ok now⟩ :: ⟨.uuid4, .ok id⟩ :: h)
  | approve {user : Api.User} {anomalyId : Uuid} {h : History K} {row : ActionRow K} :
      Api.May (Api.Approves user anomalyId) h (.insertAction row) →
      InsertedBy cfg row (.approve user anomalyId) h
  | rollback {user : Api.User} {anomalyId : Uuid} {h : History K} {row : ActionRow K} :
      Api.May (Api.Reverses user anomalyId) h (.insertAction row) →
      InsertedBy cfg row (.rollback user anomalyId) h
  | execute {m : RemediationMessage} {req : Executor.Request} {h : History K} {now : Time}
      {id : Uuid} {res : ActionResult} {extra : Executor.Recorded K} :
      Executor.parseRequest m = .ok req → Executor.Answers cfg.executor req h res extra →
      InsertedBy cfg (Executor.outcomeRow cfg.executor id now req res extra) (.execute m)
        (⟨.uuid4, .ok id⟩ :: ⟨.now, .ok now⟩ :: h)

theorem inserted_by {tag : Tag K} {t : History K} {row : ActionRow K}
    (h : Calls cfg tag t (.insertAction row)) : InsertedBy cfg row tag t := by
  cases acting h rfl with
  | traffic hmay => cases hmay
  | detector hmay =>
      cases hmay with
      | early _ ho => cases ho
  | decision hmay =>
      cases hmay with
      | read ho => cases ho
      | insert hd => exact .decision hd
  | approve hmay => exact .approve hmay
  | rollback hmay => exact .rollback hmay
  | executor hmay =>
      obtain ⟨_, _, _, _, _, _, hp, ha, ho, rfl⟩ := executor_inserts hmay rfl rfl
      cases ho
      exact .execute hp ha

omit [Scalar K] in
/-- What the API writes is a request sent, or one that could not be. -/
theorem row_of_api {reads : History K → Api.Dispatch → Prop} {t : History K} {row : ActionRow K}
    (h : Api.May reads t (.insertAction row)) :
    (row.result = .dispatched ∨ row.result = .dispatchFailed) ∧ row.priorState = none := by
  cases h with
  | read ho => cases ho
  | insert => exact ⟨Or.inl rfl, rfl⟩
  | fail => exact ⟨Or.inr rfl, rfl⟩

omit [Scalar K] in
/-- The decision engine executes nothing. -/
theorem verdict_uncounted {p r : Bool} {a : RemediationAction} {A : Authority} {res : ActionResult}
    (h : res = (Decision.verdict p a r A).1) : Executor.executedResults.contains res = false := by
  subst h
  cases p <;> cases a <;> cases A <;> cases r <;> decide

/-- **A row of something done, or with a state to go back to, is written by the executor.** -/
theorem executor_of_inserted {tag : Tag K} {t : History K} {row : ActionRow K}
    (h : InsertedBy cfg row tag t)
    (hrow : Executor.executedResults.contains row.result = true ∨ row.priorState ≠ none) :
    ∃ m req id now h₀ res extra, tag = .execute m ∧ Executor.parseRequest m = .ok req
      ∧ row = Executor.outcomeRow cfg.executor id now req res extra
      ∧ t = ⟨.uuid4, .ok id⟩ :: ⟨.now, .ok now⟩ :: h₀
      ∧ Executor.Answers cfg.executor req h₀ res extra := by
  have hapi : ∀ {reads : History K → Api.Dispatch → Prop},
      ¬ Api.May reads t (.insertAction row) := by
    intro reads hmay
    obtain ⟨hres, hprior⟩ := row_of_api hmay
    rcases hrow with hdone | hne
    · rcases hres with hres | hres
      · rw [hres] at hdone
        cases hdone
      · rw [hres] at hdone
        cases hdone
    · exact hne hprior
  cases h with
  | decision hd =>
      obtain ⟨_, _, _, _, hverdict⟩ := hd
      rcases hrow with hdone | hne
      · cases (verdict_uncounted (congrArg Prod.fst hverdict)).symm.trans hdone
      · exact absurd rfl hne
  | approve hmay => exact absurd hmay hapi
  | rollback hmay => exact absurd hmay hapi
  | execute hp ha => exact ⟨_, _, _, _, _, _, _, rfl, hp, rfl, rfl, ha⟩

/-- **Only the executor writes to the cluster**, and on what. -/
theorem patched_by {tag : Tag K} {t : History K} {o : Op K} (ho : isPatch o = true)
    (h : Calls cfg tag t o) :
    ∃ m req, tag = .execute m ∧ Executor.parseRequest m = .ok req
      ∧ ((∃ ref, Executor.Contains cfg.executor req t o ref)
        ∨ ∃ row, Executor.Reverses req row t o) := by
  have hacts := acts_of_isPatch ho
  cases acting h hacts with
  | traffic hmay => cases hmay <;> cases ho
  | detector hmay =>
      cases hmay with
      | early _ hearly =>
          have hpatch : isPatch o = false := by cases o <;> first | rfl | cases hearly
          rw [ho] at hpatch
          cases hpatch
      | _ => cases ho
  | decision hmay =>
      cases hmay with
      | read hread => simp [hacts] at hread
      | update => cases ho
      | insert => cases ho
      | publish => cases ho
  | approve hmay =>
      cases hmay with
      | read hread => simp [hacts] at hread
      | insert => cases ho
      | publish => cases ho
      | fail => cases ho
  | rollback hmay =>
      cases hmay with
      | read hread => simp [hacts] at hread
      | insert => cases ho
      | publish => cases ho
      | fail => cases ho
  | executor hmay =>
      cases hmay with
      | read hread => simp [hacts] at hread
      | patch hp hc => exact ⟨_, _, rfl, hp, Or.inl ⟨_, hc⟩⟩
      | reverse hp hr => exact ⟨_, _, rfl, hp, Or.inr ⟨_, hr⟩⟩
      | insert => cases ho
  | settle => cases ho

/-- Whoever sends a patch has only read so far. -/
theorem idle_before_patch {tag : Tag K} {t : History K} {o : Op K} (ho : isPatch o = true)
    (h : Calls cfg tag t o) : Idle t := by
  obtain ⟨_, _, _, _, ⟨_, hc⟩ | ⟨_, hr⟩⟩ := patched_by ho h
  · exact hc.idle
  · exact hr.idle

omit [Scalar K] in
theorem not_idle_of_patch {e : SysEvent K} (hp : isPatch e.op = true) {t : History K}
    (hmem : e.call ∈ t) : ¬ Idle t := by
  intro hidle
  have hacts := acts_of_isPatch hp
  rw [show acts e.op = false from hidle _ hmem] at hacts
  cases hacts

/-- The calls that only the detector makes. -/
def detects : Op K → Bool
  | .insertAnomaly _ => true
  | .basicPublish (.anomaly _) => true
  | .saveProfile _ _ _ => true
  | .setTrafficZ _ _ => true
  | _ => false

/-- **Only the detector makes them.** -/
theorem detecting {tag : Tag K} {t : History K} {o : Op K} (h : Calls cfg tag t o)
    (ho : detects o = true) :
    (∃ m, tag = .traffic m ∧ Behaviour.MayTraffic m t o)
      ∨ ∃ m, tag = .cost m ∧ Behaviour.May m t o := by
  have hacts : acts o = true := by cases o <;> first | rfl | cases ho
  have hread : ∀ {b : Prop}, acts o = false → b := fun hf => by simp [hacts] at hf
  cases acting h hacts with
  | traffic hmay => exact Or.inl ⟨_, rfl, hmay⟩
  | detector hmay => exact Or.inr ⟨_, rfl, hmay⟩
  | decision hmay =>
      cases hmay with
      | read hf => exact hread hf
      | _ => cases ho
  | approve hmay =>
      cases hmay with
      | read hf => exact hread hf
      | _ => cases ho
  | rollback hmay =>
      cases hmay with
      | read hf => exact hread hf
      | _ => cases ho
  | executor hmay =>
      have hpatch : isPatch o = false := by
        cases o <;> first | rfl | cases ho
      obtain ⟨_, _, _, _, _, _, _, _, hop, _⟩ := executor_inserts hmay hacts hpatch
      rw [hop] at ho
      cases ho
  | settle => cases ho

theorem anomaly_published_by {tag : Tag K} {t : History K} {ma : AnomalyMessage K}
    (h : Calls cfg tag t (.basicPublish (.anomaly ma))) :
    ∃ m f id now t', tag = .cost m ∧ Behaviour.Flags m f ∧ ma = f.message id now
      ∧ Attempts (.anomaly ma) (⟨.insertAnomaly (f.row id now), .ok ()⟩ :: t') t := by
  rcases detecting h rfl with ⟨m, _, hmay⟩ | ⟨m, rfl, hmay⟩
  · cases hmay
  · cases hmay with
    | early _ ho => cases ho
    | publish _ hf hatt => exact ⟨_, _, _, _, _, rfl, hf, rfl, hatt⟩

theorem anomaly_inserted_by {tag : Tag K} {t : History K} {row : AnomalyRow K}
    (h : Calls cfg tag t (.insertAnomaly row)) :
    ∃ m f id now t', tag = .cost m ∧ Behaviour.Flags m f ∧ row = f.row id now
      ∧ t = ⟨.uuid4, .ok id⟩ :: t' := by
  rcases detecting h rfl with ⟨m, _, hmay⟩ | ⟨m, rfl, hmay⟩
  · cases hmay
  · cases hmay with
    | early _ ho => cases ho
    | insert _ hf => exact ⟨_, _, _, _, _, rfl, hf, rfl, rfl⟩

/-- Only the decision engine updates anomalies, each with a verdict of its own. -/
theorem anomaly_updated_by {tag : Tag K} {t : History K} {id : Uuid} {cl : AnomalyClassification}
    {ev : Evidence K} (h : Calls cfg tag t (.updateAnomaly id cl ev)) :
    ∃ ma, tag = .anomaly ma ∧ id = ma.id
      ∧ (cl = .legitimateTrafficGrowth → ma.classification = some .legitimateTrafficGrowth) := by
  cases acting h rfl with
  | traffic hmay => cases hmay
  | detector hmay =>
      cases hmay with
      | early _ ho => cases ho
  | decision hmay =>
      cases hmay with
      | read ho => cases ho
      | update _ hcl => exact ⟨_, rfl, rfl, hcl⟩
  | approve hmay =>
      cases hmay with
      | read ho => cases ho
  | rollback hmay =>
      cases hmay with
      | read ho => cases ho
  | executor hmay =>
      obtain ⟨_, _, _, _, _, _, _, _, ho, _⟩ := executor_inserts hmay rfl rfl
      cases ho

/-! ## From a transcript back to the trace -/

/-- **Every call in a transcript is an event of the run**, after those that stand behind it. -/
theorem answered_after (h : (system cfg).Run P w c) {pre : List (SysEvent K)}
    (hpre : pre <:+ c.trace) {i : Nat} {call : SysCall K} {l t : History K}
    (hc : hist pre i = l ++ call :: t) :
    ∃ e pre' x, e :: pre' <:+ pre ∧ e.tid = i ∧ e.call = call ∧ hist pre' i = t
      ∧ exec e.before call.op x = (call.res, e.after) := by
  obtain ⟨e, pre', hsuf, hi, hcall, hrest⟩ := hist_split hc
  obtain ⟨x, hx⟩ := exec_of_suffix h (hsuf.trans hpre)
  refine ⟨e, pre', x, hsuf, hi, hcall, hrest, ?_⟩
  subst hcall
  exact hx

theorem answered (h : (system cfg).Run P w c) {pre : List (SysEvent K)} (hpre : pre <:+ c.trace)
    {i : Nat} {call : SysCall K} (hc : call ∈ hist pre i) :
    ∃ e pre' x, e :: pre' <:+ pre ∧ e.tid = i ∧ e.call = call
      ∧ exec e.before call.op x = (call.res, e.after) := by
  obtain ⟨l₁, l₂, hsplit⟩ := List.append_of_mem hc
  obtain ⟨e, pre', x, hsuf, hi, hcall, _, hx⟩ := answered_after h hpre hsplit
  exact ⟨e, pre', x, hsuf, hi, hcall, hx⟩

/-- An insert that was answered left its row in the ledger. -/
theorem row_of_answered (h : (system cfg).Run P w c) {i : Nat} {row : ActionRow K} {a : Unit}
    (hc : (⟨.insertAction row, .ok a⟩ : SysCall K) ∈ hist c.trace i) :
    row ∈ c.world.actionsLog := by
  obtain ⟨e, pre, x, he, _, _, hx⟩ := answered h (List.suffix_refl _) hc
  obtain ⟨_, hlog⟩ := exec_insertAction (congrArg Prod.fst hx)
  rw [hx] at hlog
  refine (h.le_of_mem (grows cfg) (he.subset (List.mem_cons_self ..))).actionsLog.subset ?_
  rw [hlog]
  exact List.mem_append_right _ (List.mem_singleton_self _)

/-- Whatever was written by an insert that answered, in the transcript of a later call. -/
theorem row_of_transcript (h : (system cfg).Run P w c) {e : SysEvent K}
    {pre : List (SysEvent K)} (he : e :: pre <:+ c.trace) {row : ActionRow K}
    (hmem : (⟨.insertAction row, .ok ()⟩ : SysCall K) ∈ hist pre e.tid) :
    row ∈ e.before.actionsLog ∧ ∃ ins pre', ins :: pre' <:+ c.trace ∧ ins.tag = e.tag
      ∧ ins.op = .insertAction row := by
  have hpre : pre <:+ c.trace := (List.suffix_cons e pre).trans he
  obtain ⟨c₀, _, _, hr, _, hw, htr, _⟩ := h.origin he
  obtain ⟨ins, pre', _, hins, hi, hcall, _⟩ := answered h hpre hmem
  refine ⟨hw ▸ row_of_answered hr (htr ▸ hmem), ins, pre', hins.trans hpre,
    h.tag_eq ((hins.trans hpre).subset (List.mem_cons_self ..))
      (he.subset (List.mem_cons_self ..)) hi, congrArg Call.op hcall⟩

end HyperTrace.Proof
