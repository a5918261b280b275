import HyperTrace.Proof.Evidence
import HyperTrace.Proof.Lineage

/-!
# What the executor guards against never comes

The executor trusts nobody: it has its own copy of the protected namespaces, it can
record that a rollback names no row or a row with nothing to go back to, that it
does not know what kind of state it is to restore, or that it does not know an
action. This module asks which of that ever happens when the services are the only
ones to send it requests, and when it protects nothing that the decision engine
does not protect.

None of it does, but for one: the schema has two actions the executor does not
implement, and policies may ask for them.
-/

namespace HyperTrace.Executor

open Effect Proof

variable {K : Type} {h : History K}

/-! ## Actions the executor knows -/

/-- What is recorded as unknown is neither of the two actions that are implemented. -/
def Honest : Op K → Prop
  | .insertAction row => ∀ action, row.result = .unsupportedAction action →
      action ≠ RemediationAction.throttle.value ∧ action ≠ RemediationAction.freezeScaling.value
  | _ => True

/-- An outcome of an action that was carried out, or would have been. -/
def Known (_ : History K) : Except Err (Outcome K) → Prop
  | .ok outcome => ∀ action, outcome.status ≠ .unsupportedAction action
  | .error _ => True

theorem record_claims {cfg : Config} {req : Request} {res : ActionResult} {extra : Recorded K}
    (hres : ∀ action, res = .unsupportedAction action →
      action ≠ RemediationAction.throttle.value ∧ action ≠ RemediationAction.freezeScaling.value) :
    (record cfg req res extra).Obeys (anyAnswer fun _ o => Honest o) (fun _ _ => True) h := by
  refine obeys_local rfl trivial fun now => ?_
  refine obeys_local rfl trivial fun id => ?_
  exact obeys_last hres fun r => trivial

theorem record_known {cfg : Config} {req : Request} {outcome : Outcome K} {extra : Recorded K}
    {t : History K} (hout : Known t (.ok outcome)) :
    (record cfg req outcome.status extra).Obeys (anyAnswer fun _ o => Honest o) (fun _ _ => True)
      h :=
  record_claims fun action heq => absurd heq (hout action)

theorem throttle_known (service : String) :
    (throttle service).Obeys (anyAnswer fun _ o => Honest o) (Known (K := K)) h := by
  unfold throttle
  split
  refine Prog.Obeys.bind (R := fun _ _ => True) ?_ ?_ fun _ _ _ => trivial
  · refine Prog.obeys_tryCatch.mpr (obeys_call trivial (fun d => trivial) fun e => ?_)
    exact .ite (fun _ => trivial) fun _ => trivial
  · intro t d _
    cases d with
    | none => exact fun action heq => nomatch heq
    | some d =>
        refine .ite (fun _ => ?_) fun _ => ?_
        · exact fun action heq => nomatch heq
        · exact obeys_call trivial (fun _ action heq => nomatch heq) fun e => trivial

theorem freezeScaling_known (service : String) :
    (freezeScaling service).Obeys (anyAnswer fun _ o => Honest o) (Known (K := K)) h := by
  unfold freezeScaling
  split
  refine obeys_call trivial (fun hpas => ?_) fun e => trivial
  -- four ways to find nothing to do, and the patch
  split
  · exact fun action heq => nomatch heq
  · split
    · exact fun action heq => nomatch heq
    · refine .ite (fun _ => ?_) fun _ => .ite (fun _ => ?_) fun _ => ?_
      · exact fun action heq => nomatch heq
      · exact fun action heq => nomatch heq
      · exact obeys_call trivial (fun _ action heq => nomatch heq) fun e => trivial

theorem rollback_known (ref : Json.Text K) :
    (rollback ref).Obeys (anyAnswer fun _ o => Honest o) Known h := by
  unfold rollback
  refine obeys_lift (fun kind _ => ?_) fun e _ => trivial
  refine .ite (fun _ => ?_) fun _ => .ite (fun _ => ?_) fun _ => ?_
  · refine obeys_lift (fun container _ => ?_) fun e _ => trivial
    refine obeys_lift (fun previous _ => ?_) fun e _ => trivial
    refine obeys_lift (fun deployment _ => ?_) fun e _ => trivial
    refine obeys_lift (fun ns _ => ?_) fun e _ => trivial
    exact obeys_call trivial (fun _ action heq => nomatch heq) fun e => trivial
  · refine obeys_lift (fun previous _ => ?_) fun e _ => trivial
    refine obeys_lift (fun hpa _ => ?_) fun e _ => trivial
    refine obeys_lift (fun ns _ => ?_) fun e _ => trivial
    exact obeys_call trivial (fun _ action heq => nomatch heq) fun e => trivial
  · exact fun action heq => nomatch heq

/-- **No request to throttle or to freeze is turned down as unknown.** -/
theorem handle_claims [Scalar K] (cfg : Config) (m : RemediationMessage) :
    (handle (K := K) cfg m).Obeys (anyAnswer fun _ o => Honest o) (fun _ _ => True) [] := by
  have hfixed : ∀ {req : Request} {res : ActionResult} {extra : Recorded K} {t : History K},
      (∀ action, res ≠ .unsupportedAction action) →
      (record cfg req res extra).Obeys (anyAnswer fun _ o => Honest o) (fun _ _ => True) t :=
    fun hne => record_claims fun action heq => absurd heq (hne action)
  unfold handle
  refine obeys_lift (fun req _ => ?_) fun e _ => trivial
  refine .ite (fun _ => ?_) fun _ => .ite (fun _ => ?_) fun _ => ?_
  · refine Prog.Obeys.bind (R := fun _ _ => True) ?_ (fun _ _ _ => trivial) fun _ _ _ => trivial
    unfold handleRollback
    refine obeys_lift (fun t _ => ?_) fun e _ => trivial
    refine obeys_call trivial (fun row => ?_) fun e => trivial
    split
    · exact hfixed fun _ => nofun
    · split
      · exact hfixed fun _ => nofun
      · refine Prog.Obeys.bind (R := fun _ _ => True) ?_ (fun t late _ => ?_) fun _ _ _ => trivial
        · unfold pastDeadline
          split
          · exact trivial
          · exact obeys_call trivial (fun _ => trivial) fun e => trivial
        · refine .ite (fun _ => hfixed fun _ => nofun) fun _ => ?_
          exact Prog.Obeys.bind (rollback_known _) (fun _ _ hout => record_known hout)
            fun _ _ _ => trivial
  · exact Prog.Obeys.bind (hfixed fun _ => nofun) (fun _ _ _ => trivial) fun _ _ _ => trivial
  · refine Prog.Obeys.bind (R := fun _ _ => True) ?_ (fun t ceiling _ => ?_) fun _ _ _ => trivial
    · unfold rateLimitExceeded
      refine obeys_call trivial (fun now => ?_) fun e => trivial
      refine obeys_call trivial (fun n₁ => ?_) fun e => trivial
      refine .ite (fun _ => trivial) fun _ => ?_
      refine obeys_call trivial (fun n₂ => ?_) fun e => trivial
      exact .ite (fun _ => trivial) fun _ => trivial
    · rcases ceiling with _ | _ | _
      · refine .ite (fun _ => ?_) fun hthrottle => .ite (fun _ => ?_) fun hfreeze => ?_
        · exact Prog.Obeys.bind (throttle_known _) (fun _ _ hout => record_known hout)
            fun _ _ _ => trivial
        · exact Prog.Obeys.bind (freezeScaling_known _) (fun _ _ hout => record_known hout)
            fun _ _ _ => trivial
        · refine record_claims fun action heq => ?_
          obtain rfl := ActionResult.unsupportedAction.inj heq
          exact ⟨hthrottle, hfreeze⟩
      · exact hfixed fun _ => nofun
      · exact hfixed fun _ => nofun

end HyperTrace.Executor

namespace HyperTrace.Proof

open HyperTrace Effect

variable {K : Type} [Scalar K]

variable {cfg : Settings} {P : SysConfig K → SysAct K → Prop} {c : SysConfig K}

/-! ## What a rollback goes by -/

/-- **An executed row can be rolled back.** -/
theorem priorState_of_executed (h : (system cfg).Run P (World.empty K) c) {row : ActionRow K}
    (hrow : row ∈ c.world.actionsLog) (hres : row.result = .executed) :
    ∃ prior, Executor.priorState row = some prior := by
  rcases row_inserted h hrow with hw | ⟨e, pre, he, hop, _⟩
  · cases hw
  · have hcalls := calls_of_suffix h he
    rw [hop] at hcalls
    obtain ⟨_, _, _, _, _, _, _, _, _, rfl, _, ha⟩ :=
      executor_of_inserted (inserted_by hcalls) (Or.inl (by rw [hres]; rfl))
    cases ha with
    | @contained _ call _ reason hc =>
        generalize call.op = o at hc
        cases hc <;> exact ⟨_, rfl⟩
    | _ => cases hres

/-- **A request to roll back names an executed row of the ledger.** -/
theorem target_of_rollback (hP : ∀ c a, P c a → noForgery c a = true)
    (h : (system cfg).Run P (World.empty K) c) {m : RemediationMessage}
    (hm : Requested c.world m) (hroll : m.action = some "rollback") :
    ∃ row ∈ c.world.actionsLog, row.result = .executed ∧ m.targetActionId = some row.id := by
  obtain ⟨e, pre, he, hpub⟩ := published_request hP h hm
  generalize htag : e.tag = tag at hpub
  generalize htr : hist pre e.tid = t at hpub
  cases hpub with
  | decision _ hm =>
      subst hm
      exact absurd (Option.some.inj hroll) (value_ne_rollback _)
  | @approve user anomalyId h₀ _ d id now happ hm hatt =>
      obtain ⟨p, service, _⟩ := happ
      have hread : (⟨.latestAction anomalyId .pendingApproval, .ok (some p)⟩ : SysCall K)
          ∈ hist pre e.tid := by
        rw [htr]
        exact hatt.mem (by simp [Api.dispatched])
      subst hm
      exact absurd (Option.some.inj hroll)
        (pending_ne_rollback h ((List.suffix_cons e pre).trans he) hread)
  | @rollback user anomalyId h₀ _ d id now hr hm hatt =>
      obtain ⟨row, _⟩ := hr
      have hread : (⟨.latestAction anomalyId .executed, .ok (some row)⟩ : SysCall K)
          ∈ hist pre e.tid := by
        rw [htr]
        exact hatt.mem (by simp [Api.dispatched])
      have hlog := row_of_read h he hread fun hx => (exec_latestAction (congrArg Prod.fst hx)).1
      obtain ⟨_, _, x, _, _, _, hx⟩ := answered h ((List.suffix_cons e pre).trans he) hread
      obtain ⟨_, _, hres⟩ := exec_latestAction (congrArg Prod.fst hx)
      have hle := ((changes_of_suffix h he).le).trans
        (h.le_of_mem (grows cfg) (he.subset (List.mem_cons_self ..)))
      exact ⟨row, hle.actionsLog.subset hlog, hres, by rw [hm]; rfl⟩

/-- What the executor was told about the row a rollback names is what the ledger has. -/
theorem loaded_of_rollback (hP : ∀ c a, P c a → noForgery c a = true)
    (h : (system cfg).Run P (World.empty K) c) {e : SysEvent K} {pre : List (SysEvent K)}
    (he : e :: pre <:+ c.trace) {m : RemediationMessage} (htag : e.tag = .execute m)
    (hroll : m.action = some "rollback") {t : Uuid} (ht : m.targetActionId = some t)
    {found : Option (ActionRow K)}
    (hcall : (⟨.actionById t, .ok found⟩ : SysCall K) ∈ hist pre e.tid) :
    ∃ row, found = some row ∧ row.result = .executed
      ∧ ∃ prior, Executor.priorState row = some prior := by
  obtain ⟨el, prel, x, hel, hi, _, hx⟩ := answered h ((List.suffix_cons e pre).trans he) hcall
  have hel' := hel.trans ((List.suffix_cons e pre).trans he)
  obtain ⟨c₀, _, _, hr, _, hw, _, hth, _⟩ := h.origin hel'
  have htag₀ : el.tag = .execute m :=
    (h.tag_eq (hel'.subset (List.mem_cons_self ..)) (he.subset (List.mem_cons_self ..)) hi).trans
      htag
  obtain ⟨row, hrow, hres, hid⟩ :=
    target_of_rollback hP hr ((delivered_of_thread hr hth).1 m htag₀) hroll
  obtain rfl : row.id = t := Option.some.inj (hid.symm.trans ht)
  have hfound := exec_actionById_eq (congrArg Prod.fst hx)
  rw [← hw] at hfound
  -- ids are a key, so the row that is found is the row that is named
  cases hf : found with
  | none =>
      rw [hf] at hfound
      have := List.find?_eq_none.mp hfound row hrow
      simp at this
  | some row' =>
      rw [hf] at hfound
      have hmem := List.mem_of_find?_eq_some hfound
      have hid' : row'.id = row.id := by simpa using List.find?_some hfound
      obtain rfl := action_unique hr hmem hrow hid'
      exact ⟨row', rfl, hres, priorState_of_executed hr hrow hres⟩

/-! ## What else is asked for -/

/-- The decision engine would act on the service, by that action. -/
structure Sanctioned (cfg : Settings) (service : String) (action : RemediationAction) : Prop where
  unprotected : Decision.isProtected service cfg.decision.protectedNamespacePrefixes = false
  acts : action ≠ .alertOnly

/-- What was decided was left standing by the cascade. -/
theorem sanctioned_of_decided (h : (system cfg).Run P (World.empty K) c) {row : ActionRow K}
    {a : AnomalyRow K} {policy : PolicyRow K} (hdec : Decided cfg c row a policy)
    (hres : row.result = .dispatched ∨ row.result = .pendingApproval) :
    ∃ action, row.actionType = RemediationAction.value action
      ∧ Sanctioned cfg a.service action := by
  obtain ⟨ins, _, _, ma, _, _, _, hins, _, _, _, _, htag, _, hop, _⟩ := hdec.written
  obtain ⟨front, pre, htr⟩ := List.append_of_mem hins
  have hcalls := calls_of_suffix h ⟨front, htr.symm⟩
  rw [htag, hop] at hcalls
  generalize hist pre ins.tid = t at hcalls
  cases inserted_by hcalls with
  | @decision _ _ _ action _ _ _ _ hd =>
      obtain ⟨_, _, _, _, hverdict⟩ := hd
      have hres' := congrArg Prod.fst hverdict
      dsimp only at hres'
      refine ⟨action, rfl, hdec.unprotected, ?_⟩
      rcases hres with hres | hres
      · exact (Decision.verdict_dispatched (hres'.symm.trans hres)).2.1
      · exact (Decision.verdict_pendingApproval (hres'.symm.trans hres)).2.1

/-- **No request of the services is for a protected service, or for an alert.** -/
theorem sanctioned_of_requested (hP : ∀ c a, P c a → noForgery c a = true)
    (h : (system cfg).Run P (World.empty K) c) {m : RemediationMessage}
    (hm : Requested c.world m) (hact : m.action ≠ some "rollback") :
    ∃ service action, m.service = some service
      ∧ m.action = some (RemediationAction.value action) ∧ Sanctioned cfg service action := by
  rcases request_published hP h hm with hm | ⟨e, pre, he, hop⟩
  · rcases hm with hm | hm <;> cases hm
  · obtain ⟨a, _, D, _, _, hservice, haction, hres, _, hearned⟩ :=
      earned_of_published h he hop hact
    cases hearned with
    | autonomous policy hdec =>
        obtain ⟨action, htype, hs⟩ := sanctioned_of_decided h hdec (Or.inl hres)
        exact ⟨a.service, action, hservice, by rw [haction, htype], hs⟩
    | approved user ins p policy _ _ _ _ _ _ hpending _ htype hdec =>
        obtain ⟨action, hp, hs⟩ := sanctioned_of_decided h hdec (Or.inr hpending)
        exact ⟨a.service, action, hservice, by rw [haction, ← htype, hp], hs⟩

/-- The executor only calls an action unknown that it does not implement. -/
theorem claims_of_suffix {w : World K} (h : (system cfg).Run P w c) {e : SysEvent K}
    {pre : List (SysEvent K)} (he : e :: pre <:+ c.trace) {m : RemediationMessage}
    (htag : e.tag = .execute m) : Executor.Honest e.op := by
  have hprog : ∀ tag : Tag K, (program cfg tag).Obeys
      (anyAnswer fun _ o => ∀ m, tag = .execute m → Executor.Honest o) (fun _ _ => True) [] := by
    intro tag
    by_cases hm : ∃ m, tag = .execute m
    · obtain ⟨m, rfl⟩ := hm
      have hcall : (program cfg (.execute m : Tag K)).Obeys
          (anyAnswer fun _ o => Executor.Honest o) (fun _ _ => True) [] :=
        (callback_obeys (Executor.handle_claims cfg.executor m) fun _ _ _ => trivial).mono
          fun _ _ _ => trivial
      exact hcall.weaken (fun _ _ ho _ _ => ho) fun _ _ _ hg => hg
    · have hother : (program cfg tag).Obeys
          (anyAnswer fun _ o => ∀ m, tag = .execute m → Executor.Honest o) (Ends cfg tag) [] :=
        (program_obeys cfg tag).weaken (fun _ _ _ m htag => absurd ⟨m, htag⟩ hm)
          fun _ _ _ hg => hg
      exact hother.mono fun _ _ _ => trivial
  exact may_of_programs hprog h he m htag

/-! ## What is left -/

/-- What may come of a request the services have sent. -/
inductive Expected (action : String) : ActionResult → Prop where
  | executed : Expected action .executed
  | noOp : Expected action .noOp
  | globalRateLimit : Expected action .blockedByGlobalRateLimit
  | perServiceRateLimit : Expected action .blockedByPerServiceRateLimit
  | rolledBack : Expected action .rolledBack
  | windowExpired : Expected action .rollbackWindowExpired
  /-- The schema knows it, the executor does not. -/
  | unsupported : action = "quarantine" ∨ action = "terminate" →
      Expected action (.unsupportedAction action)

omit [Scalar K] in
/-- A second copy of the floor that protects no more refuses nothing the first let through. -/
theorem unprotected_of_subset {service : String}
    (hfloor : cfg.executor.protectedNamespacePrefixes ⊆ cfg.decision.protectedNamespacePrefixes)
    (h : Decision.isProtected service cfg.decision.protectedNamespacePrefixes = false) :
    Executor.isProtected cfg.executor service = false :=
  List.any_eq_false.mpr fun p hp => List.any_eq_false.mp h p (hfloor hp)

/--
**The executor's own defences have nothing to do.**

With nobody but the services sending requests, and no namespace protected by the
executor only: no outcome is ever that the service is protected, that a rollback
names no row, or one without a state to go back to, that the state is of an unknown
kind, or that the action is unknown, but for the two the executor leaves out.
-/
theorem defences_idle
    (hfloor : cfg.executor.protectedNamespacePrefixes ⊆ cfg.decision.protectedNamespacePrefixes)
    (h : (system cfg).Run (fun c a => noForgery c a) (World.empty K) c) {e : SysEvent K}
    {pre : List (SysEvent K)} (he : e :: pre <:+ c.trace) {m : RemediationMessage}
    (htag : e.tag = .execute m) {row : ActionRow K} (hop : e.op = .insertAction row) :
    Expected row.actionType row.result := by
  have hcalls := calls_of_suffix h he
  rw [htag, hop] at hcalls
  generalize ht : hist pre e.tid = t at hcalls
  obtain ⟨c₀, _, _, hr, _, _, _, hth, _⟩ := h.origin he
  have hm := (delivered_of_thread hr hth).1 m htag
  cases inserted_by hcalls with
  | @execute _ req t now id res extra hparse ha =>
      obtain ⟨_, hservice, haction, _, _, htarget⟩ := Executor.parseRequest_ok hparse
      have hroll : req.action = "rollback" → m.action = some "rollback" := by
        intro hact
        rw [haction, hact]
      have hmem : ∀ {call : SysCall K}, call ∈ t → call ∈ hist pre e.tid := by
        intro call hcall
        rw [ht]
        exact .tail _ (.tail _ hcall)
      have hload : ∀ {i : Uuid} {found : Option (ActionRow K)}, req.action = "rollback" →
          req.targetActionId = some i → (⟨.actionById i, .ok found⟩ : SysCall K) ∈ t →
          ∃ row, found = some row ∧ ∃ prior, Executor.priorState row = some prior := by
        intro i found hact hi hcall
        obtain ⟨row, hrow, _, hprior⟩ := loaded_of_rollback (fun _ _ hp => hp) h he htag
          (hroll hact) (htarget ▸ hi) (hmem hcall)
        exact ⟨row, hrow, hprior⟩
      show Expected req.action res
      cases ha with
      | noRow hact hi =>
          obtain ⟨_, hnone, _⟩ := hload hact hi (List.mem_singleton_self _)
          cases hnone
      | noReference hact hi hnone =>
          obtain ⟨_, hsome, _, hprior⟩ := hload hact hi (List.mem_singleton_self _)
          obtain rfl := Option.some.inj hsome
          rw [hnone] at hprior
          cases hprior
      | expired => exact .windowExpired
      | reversed => exact .rolledBack
      | unknownKind hl hrev =>
          obtain ⟨o, ho⟩ := reversal_of_loaded h hl (i := e.tid) fun call hcall =>
            hist_mono ((List.suffix_cons e pre).trans he) (hmem hcall)
          rw [hrev] at ho
          cases ho
      | floor hact hprot =>
          obtain ⟨service, action, hs, _, hsanctioned⟩ :=
            sanctioned_of_requested (fun _ _ hp => hp) hr hm (by rw [haction]; simpa using hact)
          obtain rfl : req.service = service := Option.some.inj (hservice.symm.trans hs)
          rw [unprotected_of_subset hfloor hsanctioned.unprotected] at hprot
          cases hprot
      | global => exact .globalRateLimit
      | perService => exact .perServiceRateLimit
      | contained => exact .executed
      | noDeployment => exact .noOp
      | throttled => exact .noOp
      | frozen => exact .noOp
      | unsupported hact =>
          obtain ⟨_, action, _, ha, hsanctioned⟩ :=
            sanctioned_of_requested (fun _ _ hp => hp) hr hm (by rw [haction]; simpa using hact)
          have heq : req.action = action.value := Option.some.inj (haction.symm.trans ha)
          have hclaims := claims_of_suffix h he htag
          rw [hop] at hclaims
          obtain ⟨hthrottle, hfreeze⟩ := hclaims _ rfl
          have hact := hsanctioned.acts
          rw [heq] at hthrottle hfreeze ⊢
          exact .unsupported (by cases action <;> simp_all [RemediationAction.value])

open Scenario in
/-- The rollback of a throttle, with one protected namespace for both. -/
theorem defences_idle_rolledBack :
    ∃ (c : SysConfig ℚ) (e : SysEvent ℚ) (row : ActionRow ℚ), e ∈ c.trace
      ∧ e.op = .insertAction row ∧ row.result = .rolledBack
      ∧ Expected row.actionType row.result := by
  obtain ⟨c, hrun, row, hrow, hres⟩ := rolledBack_run
  rcases row_inserted hrun hrow with hw | ⟨e, pre, he, hop, _⟩
  · cases hw
  · have hcalls := calls_of_suffix hrun he
    rw [hop] at hcalls
    obtain ⟨m, _, _, _, _, _, _, htag, _⟩ :=
      executor_of_inserted (inserted_by hcalls) (Or.inl (by rw [hres]; rfl))
    exact ⟨c, e, row, he.subset (List.mem_cons_self ..), hop, hres,
      defences_idle (List.Subset.refl _) hrun he htag hop⟩

end HyperTrace.Proof
