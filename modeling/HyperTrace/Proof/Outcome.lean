import HyperTrace.Proof.Writes

/-!
# One outcome for every request

`handle` lets through whatever the Kubernetes client raises, but for a 404 on the
read of a Deployment; the consumer then drops the message, and no row says what
became of it. This module shows that nothing else is ever lost: a request the
services sent is well formed and names rows that are there, what it is answered
with can always be written, and the reference of a rollback can always be read.
So a request is answered by one row exactly when the Kubernetes calls let it.
-/

namespace HyperTrace.Executor

variable {K : Type}

/-- Whatever was called was answered, or was the read of a missing Deployment. -/
def Quiet (h : History K) : Prop := ∀ c ∈ h, c.isOk = true ∨ isMissing c

theorem Quiet.nil : Quiet ([] : History K) := by
  intro c hc
  cases hc

theorem Quiet.cons {c : SysCall K} {h : History K} (hc : c.isOk = true ∨ isMissing c)
    (hh : Quiet h) : Quiet (c :: h) := by
  intro d hd
  rcases List.mem_cons.mp hd with rfl | hd
  · exact hc
  · exact hh d hd

theorem Quiet.ok {c : SysCall K} {h : History K} (hc : c.isOk = true) (hh : Quiet h) :
    Quiet (c :: h) := hh.cons (Or.inl hc)

variable {cfg : Config} {req : Request} {h : History K}

theorem Admitted.quiet {now : Time} (ha : Admitted cfg req now h) : Quiet h := by
  cases ha
  exact .ok rfl (.ok rfl (.ok rfl .nil))

theorem Contains.quiet {o : Op K} {ref : Json K} (hc : Contains cfg req h o ref) : Quiet h := by
  cases hc with
  | throttle _ _ ha => exact .ok rfl ha.quiet
  | freeze _ _ ha => exact .ok rfl ha.quiet

variable [Scalar K]

theorem Loaded.quiet {row : ActionRow K} {prior : Json K} (hl : Loaded req row prior h) :
    Quiet h := by
  obtain ⟨_, _, _, hw⟩ := hl
  cases hw with
  | unlimited _ => exact .ok rfl .nil
  | checked => exact .ok rfl (.ok rfl .nil)

/-- **An outcome is only recorded when no Kubernetes call raised.** -/
theorem Answers.quiet {res : ActionResult} {extra : Recorded K}
    (ha : Answers cfg req h res extra) : Quiet h := by
  cases ha with
  | noRow => exact .ok rfl .nil
  | noReference => exact .ok rfl .nil
  | expired => exact .ok rfl (.ok rfl .nil)
  | reversed hr hok =>
      obtain ⟨hl, _⟩ := hr
      exact .ok hok hl.quiet
  | unknownKind hl => exact hl.quiet
  | floor => exact .nil
  | global => exact .ok rfl (.ok rfl .nil)
  | perService => exact .ok rfl (.ok rfl (.ok rfl .nil))
  | contained _ hc hok => exact .ok hok hc.quiet
  | noDeployment _ _ hadm => exact .cons (Or.inr ⟨_, _, rfl⟩) hadm.quiet
  | throttled _ _ hadm => exact .ok rfl hadm.quiet
  | frozen _ _ hadm => exact .ok rfl hadm.quiet
  | unsupported _ hadm => exact hadm.quiet

/-- An outcome only refers to a row that was loaded. -/
theorem Answers.loaded {res : ActionResult} {extra : Recorded K} {r : Uuid}
    (ha : Answers cfg req h res extra) (hr : extra.rollbackRef = some r) :
    ∃ t row, (⟨.actionById t, .ok (some row)⟩ : SysCall K) ∈ h ∧ row.id = r := by
  have hload : ∀ {row : ActionRow K} {prior : Json K} {t : History K}, Loaded req row prior t →
      ∃ i, (⟨.actionById i, .ok (some row)⟩ : SysCall K) ∈ t := by
    intro row prior t hl
    obtain ⟨_, _, _, hw⟩ := hl
    cases hw with
    | unlimited => exact ⟨_, List.mem_cons_self ..⟩
    | checked => exact ⟨_, List.mem_cons_of_mem _ (List.mem_cons_self ..)⟩
  -- only an expired, a reversed and an unknown-kind outcome refer to a row
  cases ha with
  | expired =>
      exact ⟨_, _, List.mem_cons_of_mem _ (List.mem_cons_self ..), Option.some.inj hr⟩
  | reversed hrev =>
      obtain ⟨hl, _⟩ := hrev
      obtain ⟨i, hi⟩ := hload hl
      exact ⟨i, _, List.mem_cons_of_mem _ hi, Option.some.inj hr⟩
  | unknownKind hl =>
      obtain ⟨i, hi⟩ := hload hl
      exact ⟨i, _, hi, Option.some.inj hr⟩
  | _ => cases hr

end HyperTrace.Executor

namespace HyperTrace.Proof

open HyperTrace Effect

variable {K : Type} [Scalar K]

variable {cfg : Settings} {P : SysConfig K → SysAct K → Prop} {c : SysConfig K}

/-! ## Requests -/

/-- The request belongs to the `dispatched` row, and lacks nothing the executor reads. -/
structure Backed (m : RemediationMessage) (D : ActionRow K) : Prop where
  actionId : m.actionId = some D.id
  anomalyId : m.anomalyId = D.anomalyId
  result : D.result = .dispatched
  service : m.service.isSome
  action : m.action.isSome
  mode : modeAllowed (m.mode.getD "autonomous") = true
  target : m.action = some "rollback" → m.targetActionId.isSome

omit [Scalar K] in
theorem value_ne_rollback (a : RemediationAction) : a.value ≠ "rollback" := by
  cases a <;> decide

/-- What is pending approval is not a rollback. -/
theorem pending_ne_rollback (h : (system cfg).Run P (World.empty K) c)
    {pre : List (SysEvent K)} (hpre : pre <:+ c.trace) {i : Nat} {anomalyId : Uuid}
    {p : ActionRow K} (hread : (⟨.latestAction anomalyId .pendingApproval, .ok (some p)⟩ :
      SysCall K) ∈ hist pre i) : p.actionType ≠ "rollback" := by
  obtain ⟨el, _, x, hel, _, _, hx⟩ := answered h hpre hread
  obtain ⟨hp, _, hres⟩ := exec_latestAction (congrArg Prod.fst hx)
  have hp' := (h.le_of_mem (grows cfg) ((hel.trans hpre).subset
    (List.mem_cons_self ..))).actionsLog.subset ((changes_of_exec hx).le.actionsLog.subset hp)
  obtain ⟨_, _, _, _, _, _, _, action, haction⟩ := pending_inserted h hp' hres
  rw [haction]
  exact value_ne_rollback action

/-- Who published a request of the services, and after what. -/
theorem published_request (hP : ∀ c a, P c a → noForgery c a = true)
    (h : (system cfg).Run P (World.empty K) c) {m : RemediationMessage}
    (hm : Requested c.world m) :
    ∃ e pre, e :: pre <:+ c.trace ∧ PublishedBy cfg m e.tag (hist pre e.tid) := by
  rcases request_published hP h hm with hm | ⟨e, pre, he, hop⟩
  · rcases hm with hm | hm <;> cases hm
  · have hcalls := calls_of_suffix h he
    rw [hop] at hcalls
    exact ⟨e, pre, he, published_by hcalls⟩

/-- A rollback of the services names the row it reverses and no service, or rather the empty one. -/
theorem rollback_request (hP : ∀ c a, P c a → noForgery c a = true)
    (h : (system cfg).Run P (World.empty K) c) {m : RemediationMessage} (hm : Requested c.world m)
    (hroll : m.action = some "rollback") : m.service = some "" ∧ m.targetActionId.isSome := by
  obtain ⟨e, pre, he, hpub⟩ := published_request hP h hm
  generalize htag : e.tag = tag at hpub
  generalize htr : hist pre e.tid = t at hpub
  -- only the API's rollback publishes this action
  cases hpub with
  | decision _ hm =>
      subst hm
      exact absurd (Option.some.inj hroll) (value_ne_rollback _)
  -- the action is copied from the pending row, which is no rollback
  | @approve user anomalyId h₀ _ d id now happ hm hatt =>
      obtain ⟨p, service, _⟩ := happ
      have hread : (⟨.latestAction anomalyId .pendingApproval, .ok (some p)⟩ : SysCall K)
          ∈ hist pre e.tid := by
        rw [htr]
        exact hatt.mem (by simp [Api.dispatched])
      subst hm
      exact absurd (Option.some.inj hroll)
        (pending_ne_rollback h ((List.suffix_cons e pre).trans he) hread)
  | rollback hr hm =>
      obtain ⟨row, _⟩ := hr
      subst hm
      exact ⟨rfl, rfl⟩

/-- **Every request of the services belongs to a `dispatched` row that is in the ledger.** -/
theorem request_backed (hP : ∀ c a, P c a → noForgery c a = true)
    (h : (system cfg).Run P (World.empty K) c) {m : RemediationMessage}
    (hm : Requested c.world m) : ∃ D ∈ c.world.actionsLog, Backed m D := by
  obtain ⟨e, pre, he, hpub⟩ := published_request hP h hm
  have htarget := fun hroll => (rollback_request hP h hm hroll).2
  have hlog : ∀ {row : ActionRow K}, (⟨.insertAction row, .ok ()⟩ : SysCall K) ∈ hist pre e.tid →
      row ∈ c.world.actionsLog := by
    intro row hrow
    exact (h.le_of_mem (grows cfg) (he.subset (List.mem_cons_self ..))).actionsLog.subset
      ((changes_of_suffix h he).le.actionsLog.subset (row_of_transcript h he hrow).1)
  generalize e.tag = tag at hpub
  generalize hist pre e.tid = t at hpub hlog
  cases hpub with
  | decision _ hm hatt =>
      refine ⟨_, hlog (hatt.mem (List.mem_cons_self ..)), ?_⟩
      subst hm
      exact ⟨rfl, rfl, rfl, rfl, rfl, rfl, htarget⟩
  | approve happ hm hatt =>
      obtain ⟨p, service, _⟩ := happ
      refine ⟨_, hlog (hatt.mem (List.mem_cons_self ..)), ?_⟩
      subst hm
      exact ⟨rfl, rfl, rfl, rfl, rfl, rfl, htarget⟩
  | rollback hr hm hatt =>
      obtain ⟨row, _⟩ := hr
      refine ⟨_, hlog (hatt.mem (List.mem_cons_self ..)), ?_⟩
      subst hm
      exact ⟨rfl, rfl, rfl, rfl, rfl, rfl, htarget⟩

omit [Scalar K] in
/-- What the executor handles is well formed. -/
theorem parseRequest_of_backed {m : RemediationMessage} {D : ActionRow K} (hb : Backed m D) :
    ∃ req, Executor.parseRequest m = .ok req := by
  obtain ⟨s, hs⟩ := Option.isSome_iff_exists.mp hb.service
  obtain ⟨a, ha⟩ := Option.isSome_iff_exists.mp hb.action
  refine ⟨⟨D.id, m.anomalyId, s, a, m.mode.getD "autonomous", m.targetActionId⟩, ?_⟩
  simp [Executor.parseRequest, hb.actionId, hs, ha, Executor.required, bind, Except.bind, pure,
    Except.pure]

/-! ## Outcomes -/

/-- The rows a thread appended to the ledger. -/
def appended (h : History K) : List (ActionRow K) :=
  h.filterMap fun
    | ⟨.insertAction row, .ok _⟩ => some row
    | _ => none

omit [Scalar K] in
theorem appended_of_unrecorded {h : History K} (hh : Unrecorded h) : appended h = [] := by
  refine List.filterMap_eq_nil_iff.mpr fun call hcall => ?_
  have hne := hh call hcall
  split
  · exact absurd rfl (hne _)
  · rfl

/-- The Kubernetes calls were answered, but for reads of a Deployment that is not there. -/
def KubernetesAnswered (h : History K) : Prop :=
  ∀ call ∈ h, isKubernetes call.op = true → call.isOk = true ∨ Executor.isMissing call

theorem request_of_thread (hP : ∀ c a, P c a → noForgery c a = true)
    (h : (system cfg).Run P (World.empty K) c) {i : Nat}
    {t : Thread (Op K) Op.Res Err (Tag K) Reply} (ht : c.threads[i]? = some t)
    {m : RemediationMessage} (htag : t.tag = .execute m) : ∃ D ∈ c.world.actionsLog, Backed m D :=
  request_backed hP h ((delivered_of_thread h ht).1 m htag)

/-- **Whatever the executor records can be written.** -/
theorem outcome_resolves (hP : ∀ c a, P c a → noForgery c a = true)
    (h : (system cfg).Run P (World.empty K) c) {e : SysEvent K} {pre : List (SysEvent K)}
    (he : e :: pre <:+ c.trace) {m : RemediationMessage} (htag : e.tag = .execute m)
    {req : Executor.Request} {t : History K} {now : Time} {id : Uuid} {res : ActionResult}
    {extra : Executor.Recorded K} (hp : Executor.parseRequest m = .ok req)
    (ha : Executor.Answers cfg.executor req t res extra)
    (hh : hist pre e.tid = ⟨.uuid4, .ok id⟩ :: ⟨.now, .ok now⟩ :: t) :
    Resolves (Executor.outcomeRow cfg.executor id now req res extra) e.before := by
  obtain ⟨c₀, _, _, hr, _, hw, htr, ht, _⟩ := h.origin he
  obtain ⟨D, hD, hb⟩ := request_of_thread hP hr ht htag
  obtain ⟨hid, _, _, han, hmode, _⟩ := Executor.parseRequest_ok hp
  rw [← hw]
  refine ⟨fun a haa => ?_, fun p hpp => ?_, fun r hrr => ?_, ?_⟩
  · exact anomaly_of_row hr rfl hD (hb.anomalyId.symm.trans (han.symm.trans haa))
  · refine ⟨D, hD, ?_⟩
    have hdec : D.id = req.decisionId := Option.some.inj (hb.actionId.symm.trans hid)
    exact hdec.trans (Option.some.inj hpp)
  · obtain ⟨target, row, hload, hrow⟩ := ha.loaded hrr
    have hmem : (⟨.actionById target, .ok (some row)⟩ : SysCall K) ∈ hist c₀.trace e.tid := by
      rw [htr, hh]
      exact List.mem_cons_of_mem _ (List.mem_cons_of_mem _ hload)
    obtain ⟨el, prel, x, hel, _, _, hx⟩ := answered hr (List.suffix_refl _) hmem
    obtain ⟨hlog, _⟩ := exec_actionById (congrArg Prod.fst hx)
    exact ⟨row, (hr.le_of_mem (grows cfg) (hel.subset (List.mem_cons_self ..))).actionsLog.subset
      ((changes_of_exec hx).le.actionsLog.subset hlog), hrow⟩
  · show modeAllowed req.mode = true
    rw [hmode]
    exact hb.mode

/-- The prior state a rollback goes by can always be read. -/
theorem reversal_of_loaded (h : (system cfg).Run P (World.empty K) c) {i : Nat}
    {req : Executor.Request} {row : ActionRow K} {prior : Json K} {t : History K}
    (hl : Executor.Loaded req row prior t) (ht : ∀ call ∈ t, call ∈ hist c.trace i) :
    ∃ o, Executor.reversal prior = .ok (some o) := by
  obtain ⟨_, el, hel, hlog⟩ := row_of_loaded h (List.suffix_refl _) hl ht
  obtain ⟨_, _, hprior, _⟩ := hl
  have hlog' := (h.le_of_mem (grows cfg) hel).actionsLog.subset hlog
  obtain ⟨_, o, _, hrev, _⟩ :=
    (recoverable_of_priorState h hlog' (priorState_some hprior)).reference
  exact ⟨o, hrev⟩

/-- What the executor is let down by, short of a refused row, is the API server. -/
theorem kubernetes_of_raised (hP : ∀ c a, P c a → databaseUp c a = true)
    (h : (system cfg).Run P (World.empty K) c) {e : SysEvent K} {pre : List (SysEvent K)}
    (he : e :: pre <:+ c.trace) {m : RemediationMessage} (htag : e.tag = .execute m)
    (hraised : e.call.isOk = false) (hbroker : isBroker e.op = false)
    (hop : ∀ row, e.op ≠ .insertAction row) : isKubernetes e.op = true := by
  rcases raises_outside hP h he hraised with hb | hk | ⟨row, hrow⟩ | ⟨row, hrow⟩
  · rw [hbroker] at hb
    cases hb
  · exact hk
  · exact absurd hrow (hop row)
  · have hcalls := calls_of_suffix h he
    rw [hrow, htag] at hcalls
    obtain ⟨_, _, _, _, _, hcost, _⟩ := anomaly_inserted_by hcalls
    cases hcost

/-- The call a handler of a request was let down by is one the API server did not answer. -/
theorem unanswered_of_raised (hP : ∀ c a, P c a → databaseUp c a = true)
    (h : (system cfg).Run P (World.empty K) c) {i : Nat} {m : RemediationMessage} {p : Py K Reply}
    (ht : c.threads[i]? = some ⟨.execute m, p⟩) {s : SysCall K} {o : Op K} {err : Err}
    {t : History K} (hh : hist c.trace i = s :: ⟨o, .error err⟩ :: t)
    (hop : ∀ row, o ≠ .insertAction row) (hmissing : ¬ Executor.isMissing ⟨o, .error err⟩)
    (hbroker : isBroker o = false) : ¬ KubernetesAnswered (hist c.trace i) := by
  intro hk
  obtain ⟨e, pre, he, hei, hecall, _⟩ := hist_split (l := [_]) hh
  obtain ⟨t', ht', htag⟩ := h.tag_of_mem (he.subset (List.mem_cons_self ..))
  rw [hei, ht] at ht'
  cases ht'
  have hkube : isKubernetes o = true := by
    have heop : e.op = o := congrArg Call.op hecall
    rw [← heop]
    exact kubernetes_of_raised hP h he htag.symm (by rw [hecall]; rfl) (heop ▸ hbroker)
      (heop ▸ hop)
  rw [hh] at hk
  rcases hk ⟨o, .error err⟩ (List.mem_cons_of_mem _ (List.mem_cons_self ..)) hkube with
    hok | hmiss
  · cases hok
  · exact hmissing hmiss

/-- What the executor records is written, and its Kubernetes calls were answered. -/
theorem answered_of_recorded
    (hforge : ∀ c a, P c a → noForgery c a = true) (hup : ∀ c a, P c a → databaseUp c a = true)
    (h : (system cfg).Run P (World.empty K) c) {i : Nat} {m : RemediationMessage} {p : Py K Reply}
    (ht : c.threads[i]? = some ⟨.execute m, p⟩) {s : SysCall K} (hs : isSettle s.op = true)
    {req : Executor.Request} {t : History K} {now : Time} {id : Uuid} {result : ActionResult}
    {extra : Executor.Recorded K} {r : Except Err Unit}
    (hh : hist c.trace i = s ::
      ⟨.insertAction (Executor.outcomeRow cfg.executor id now req result extra), r⟩ ::
        ⟨.uuid4, .ok id⟩ :: ⟨.now, .ok now⟩ :: t)
    (hp : Executor.parseRequest m = .ok req) (ha : Executor.Answers cfg.executor req t result extra) :
    r = .ok () ∧ Executor.outcomeRow cfg.executor id now req result extra ∈ c.world.actionsLog
      ∧ KubernetesAnswered (hist c.trace i) := by
  obtain ⟨e, pre, he, hei, hecall, hpre⟩ := hist_split (l := [_]) hh
  obtain ⟨t', ht', htag⟩ := h.tag_of_mem (he.subset (List.mem_cons_self ..))
  rw [hei, ht] at ht'
  cases ht'
  have hresolves := outcome_resolves hforge h he htag.symm hp ha (hei ▸ hpre)
  have hok := insert_answered hup h rfl he (congrArg Call.op hecall) hresolves
  obtain rfl : r = .ok () := by
    rw [hecall] at hok
    cases hok
    rfl
  have hrow := row_of_answered h (i := i) (hh ▸ List.mem_cons_of_mem _ (List.mem_cons_self ..))
  refine ⟨rfl, hrow, ?_⟩
  have hquiet : Executor.Quiet (⟨.uuid4, .ok id⟩ :: ⟨.now, .ok now⟩ :: t) :=
    .ok rfl (.ok rfl ha.quiet)
  intro call hcall hk
  rw [hh] at hcall
  rcases List.mem_cons.mp hcall with rfl | hcall
  · cases hop : call.op with
    | settle consumer ack => rw [hop] at hk; cases hk
    | _ => rw [hop] at hs; cases hs
  · rcases List.mem_cons.mp hcall with rfl | hcall
    · cases hk
    · exact hquiet call hcall

/--
**A request is answered by one row exactly when the Kubernetes calls let it.**

With the database available and nobody but the services sending requests: when the
executor is done with a message it has appended one row, whose parent is the row
the message belongs to, if and only if none of its Kubernetes calls raised anything
but the 404 of a read. Otherwise it has appended nothing.
-/
theorem answered_iff
    (h : (system cfg).Run (fun c a => noForgery c a && databaseUp c a) (World.empty K) c) {i : Nat}
    {m : RemediationMessage} {p : Py K Reply} (ht : c.threads[i]? = some ⟨.execute m, p⟩)
    (hdone : p.isDone = true) :
    (∃ row ∈ c.world.actionsLog, appended (hist c.trace i) = [row]
        ∧ row.parentActionId = m.actionId)
      ↔ KubernetesAnswered (hist c.trace i) := by
  have hforge : ∀ (c : SysConfig K) a, (noForgery c a && databaseUp c a) = true →
      noForgery c a = true := fun _ _ hp => (Bool.and_eq_true_iff.mp hp).1
  have hup : ∀ (c : SysConfig K) a, (noForgery c a && databaseUp c a) = true →
      databaseUp c a = true := fun _ _ hp => (Bool.and_eq_true_iff.mp hp).2
  obtain ⟨D, hD, hb⟩ := request_of_thread hforge h ht rfl
  obtain ⟨r, hends⟩ := (thread_obeys h ht).of_isDone hdone
  generalize hh : hist c.trace i = t at hends ⊢
  obtain @⟨t, r', ack, res, hends⟩ := hends
  obtain ⟨req, hreq⟩ := parseRequest_of_backed hb
  cases hends with
  -- a request of the services parses, names its target, and refers to a sound state
  | malformed he =>
      rw [hreq] at he
      cases he
  | noTarget hp hroll hnone =>
      obtain ⟨_, _, haction, _, _, htarget⟩ := Executor.parseRequest_ok hp
      have hsome := hb.target (haction.trans (congrArg some hroll))
      rw [← htarget, hnone] at hsome
      cases hsome
  | badReference hp hl he =>
      obtain ⟨o, hrev⟩ := reversal_of_loaded h hl (i := i) fun call hc => by
        rw [hh]
        exact List.mem_cons_of_mem _ hc
      rw [he] at hrev
      cases hrev
  | @raised o t₀ err hidle hop hmissing hbroker =>
      -- nothing was appended, and the call that raised is one that had to be answered
      have hempty : appended (⟨.settle .executorActions ack, res⟩ :: ⟨o, .error err⟩ :: t₀) = [] :=
        appended_of_unrecorded (.skip rfl (.cons hop hidle.unrecorded))
      have hbad := unanswered_of_raised hup h ht hh hop hmissing hbroker
      rw [hh] at hbad
      rw [hempty]
      refine iff_of_false (fun hrow => ?_) hbad
      obtain ⟨row, _, hrow, _⟩ := hrow
      cases hrow
  | @recorded req' t₀ now id result extra r' hp ha =>
      obtain ⟨rfl, hrow, hgood⟩ := answered_of_recorded hforge hup h ht rfl hh hp ha
      rw [hh] at hgood
      obtain ⟨hid, _⟩ := Executor.parseRequest_ok hp
      have hread : Unrecorded (⟨.uuid4, .ok id⟩ :: ⟨.now, .ok now⟩ :: t₀) :=
        .skip rfl (.skip rfl ha.unrecorded)
      refine iff_of_true ⟨_, hrow, ?_, hid.symm⟩ hgood
      exact congrArg (_ :: ·) (appended_of_unrecorded hread)

namespace Scenario

/-- The executor is done with the approved throttle, its calls resolved as given. -/
def execution (choices : List Choice) : List (SysAct ℚ) :=
  approved ++ [.start (.remediation 0)] ++ choices.map (.step 12)

/-- Thread `i` handled the request of row 3, and has come to its end. -/
def executorDone (i : Nat) (c : SysConfig ℚ) : Bool :=
  match c.threads[i]? with
  | some ⟨.execute m, p⟩ => p.isDone && m.actionId = some 3
  | _ => false

theorem of_executorDone {i : Nat} {c : SysConfig ℚ} (h : executorDone i c = true) :
    ∃ m p, c.threads[i]? = some ⟨.execute m, p⟩ ∧ p.isDone = true ∧ m.actionId = some 3 := by
  unfold executorDone at h
  split at h
  · rename_i m p ht
    simp only [Bool.and_eq_true, decide_eq_true_eq] at h
    exact ⟨m, p, ht, h⟩
  · cases h

end Scenario

open Scenario in
/-- The throttle that nothing stood in the way of is answered by one row. -/
theorem answered_iff_executed :
    ∃ c : SysConfig ℚ, KubernetesAnswered (hist c.trace 12)
      ∧ ∃ row ∈ c.world.actionsLog, appended (hist c.trace 12) = [row]
        ∧ row.parentActionId = some 3 := by
  obtain ⟨c, hrun, hcheck⟩ := System.exists_run (S := system settings) (w := World.empty ℚ)
    (p := fun c a => noForgery c a && databaseUp c a)
    (l := execution (List.replicate 9 .ok))
    (q := fun c => executorDone 12 c && (hist c.trace 12).all Call.isOk) (by decide +kernel)
  rw [Bool.and_eq_true] at hcheck
  obtain ⟨m, p, ht, hdone, hm⟩ := of_executorDone hcheck.1
  have hk : KubernetesAnswered (hist c.trace 12) :=
    fun call hcall _ => Or.inl (List.all_eq_true.mp hcheck.2 call hcall)
  obtain ⟨row, hrow, happ, hparent⟩ := (answered_iff hrun ht hdone).mpr hk
  exact ⟨c, hk, row, hrow, happ, hparent.trans hm⟩

open Scenario in
/--
**A patch that is refused leaves the request without an outcome.**

The API server answers the patch with a 403. The executor is done with the message,
the `dispatched` row 3 is in the ledger, and no row answers it.
-/
theorem unanswered_when_forbidden :
    ∃ c : SysConfig ℚ, (system settings).Run (fun c a => noForgery c a && databaseUp c a)
        (World.empty ℚ) c
      ∧ (∃ m p, c.threads[12]? = some ⟨.execute m, p⟩ ∧ p.isDone = true ∧ m.actionId = some 3)
      ∧ (∃ D ∈ c.world.actionsLog, D.id = 3 ∧ D.result = .dispatched)
      ∧ ∀ row ∈ c.world.actionsLog, row.parentActionId ≠ some 3 := by
  obtain ⟨c, hrun, hcheck⟩ := System.exists_run (S := system settings) (w := World.empty ℚ)
    (p := fun c a => noForgery c a && databaseUp c a)
    (l := execution [.ok, .ok, .ok, .ok, ⟨.before (.api 403), id⟩, .ok])
    (q := fun c => executorDone 12 c
      && c.world.actionsLog.any (fun D => D.id = 3 && D.result = .dispatched)
      && c.world.actionsLog.all fun row => row.parentActionId ≠ some 3) (by decide +kernel)
  simp only [Bool.and_eq_true, List.any_eq_true, List.all_eq_true, decide_eq_true_eq] at hcheck
  obtain ⟨⟨hdone, D, hD, hid, hres⟩, hnone⟩ := hcheck
  exact ⟨c, hrun, of_executorDone hdone, ⟨D, hD, hid, hres⟩, hnone⟩

end HyperTrace.Proof
