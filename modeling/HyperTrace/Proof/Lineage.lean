import HyperTrace.Effect.Ledger
import HyperTrace.Proof.Incidents
import HyperTrace.Proof.Outcome

/-!
# The line a ledger row comes from

`parent_action_id` is written by three services that never compare notes: the API
copies it from a row it has read, the executor from a message. The table only
checks that some row has the id. That the references nevertheless form the story
of one anomaly is a fact about all of them together: whoever names a parent has it
from the ledger, by a read or through a request whose own row was written first,
and goes on from it in one of four ways.

Each way leads to a later stage of the story, so from any row it is at most four
steps back to the decision that began it.
-/

namespace HyperTrace.Executor

variable {K : Type} [Scalar K] {cfg : Config} {req : Request} {h : History K}
variable {res : ActionResult} {extra : Recorded K}

/-- Which results are recorded for which action. -/
def recordable (action : String) : ActionResult → Bool
  | .executed => action ≠ "rollback"
  | .noOp => action ≠ "rollback"
  | .blockedByProtectedFloor => action ≠ "rollback"
  | .blockedByGlobalRateLimit => action ≠ "rollback"
  | .blockedByPerServiceRateLimit => action ≠ "rollback"
  | .unsupportedAction a => action ≠ "rollback" && a = action
  | .rolledBack => action = "rollback"
  | .failed => action = "rollback"
  | .rollbackFailedNoReference => action = "rollback"
  | .rollbackWindowExpired => action = "rollback"
  | _ => false

theorem Answers.recordable (ha : Answers cfg req h res extra) :
    recordable req.action res = true := by
  have hne : ∀ a : RemediationAction, req.action = a.value → req.action ≠ "rollback" := by
    intro a hact
    rw [hact]
    cases a <;> decide
  cases ha with
  | reversed hr =>
      obtain ⟨⟨hact, _⟩, _⟩ := hr
      simp [Executor.recordable, hact]
  | unknownKind hl =>
      obtain ⟨hact, _⟩ := hl
      simp [Executor.recordable, hact]
  | contained _ hc => simpa [Executor.recordable] using hc.action_ne
  | noDeployment _ hact => simpa [Executor.recordable] using hne _ hact
  | throttled _ hact => simpa [Executor.recordable] using hne _ hact
  | frozen _ hact => simpa [Executor.recordable] using hne _ hact
  | noRow hact => simp [Executor.recordable, hact]
  | noReference hact => simp [Executor.recordable, hact]
  | expired hact => simp [Executor.recordable, hact]
  | floor hact => simp [Executor.recordable, hact]
  | global hact => simp [Executor.recordable, hact]
  | perService hact => simp [Executor.recordable, hact]
  | unsupported hact => simp [Executor.recordable, hact]

/-- Only a rollback refers to a row, and it is the row it was asked to reverse. -/
theorem Answers.reference (ha : Answers cfg req h res extra) {r : Uuid}
    (hr : extra.rollbackRef = some r) :
    req.action = "rollback" ∧ ∃ t row, req.targetActionId = some t ∧ row.id = r
      ∧ (⟨.actionById t, .ok (some row)⟩ : SysCall K) ∈ h := by
  have hload : ∀ {row : ActionRow K} {prior : Json K} {t : History K}, Loaded req row prior t →
      req.action = "rollback" ∧ ∃ i, req.targetActionId = some i
        ∧ (⟨.actionById i, .ok (some row)⟩ : SysCall K) ∈ t := by
    intro row prior t hl
    obtain ⟨hact, htarget, _, hw⟩ := hl
    cases hw with
    | unlimited => exact ⟨hact, _, htarget, List.mem_cons_self ..⟩
    | checked => exact ⟨hact, _, htarget, List.mem_cons_of_mem _ (List.mem_cons_self ..)⟩
  cases ha with
  | expired hact htarget =>
      exact ⟨hact, _, _, htarget, Option.some.inj hr,
        List.mem_cons_of_mem _ (List.mem_cons_self ..)⟩
  | reversed hrev =>
      obtain ⟨hl, _⟩ := hrev
      obtain ⟨hact, i, htarget, hi⟩ := hload hl
      exact ⟨hact, i, _, htarget, Option.some.inj hr, List.mem_cons_of_mem _ hi⟩
  | unknownKind hl =>
      obtain ⟨hact, i, htarget, hi⟩ := hload hl
      exact ⟨hact, i, _, htarget, Option.some.inj hr, hi⟩
  | _ => cases hr

end HyperTrace.Executor

namespace HyperTrace.Proof

open HyperTrace Effect

variable {K : Type} [Scalar K]

variable {cfg : Settings} {P : SysConfig K → SysAct K → Prop} {c : SysConfig K}

/-! ## The four ways to go on -/

/-- How a row goes on from the row it names as its parent. -/
inductive Continues (p d : ActionRow K) : Prop where
  /-- What was pending is approved as it is. -/
  | approval : p.result = .pendingApproval → d.result = .dispatched →
      d.actionType = p.actionType → d.actionType ≠ "rollback" → d.target = p.target →
      d.rollbackRef = none → Continues p d
  /-- What was executed is to be rolled back. -/
  | reversal : p.result = .executed → d.result = .dispatched → d.actionType = "rollback" →
      d.target = p.target → d.rollbackRef = some p.id → Continues p d
  /-- The request could not be sent. -/
  | refusal : p.result = .dispatched → d.result = .dispatchFailed →
      d.actionType = p.actionType → d.target = p.target → d.rollbackRef = none → Continues p d
  /-- What the executor made of the request. -/
  | outcome : p.result = .dispatched → Executor.recordable d.actionType d.result = true →
      d.actionType = p.actionType →
      (d.actionType ≠ "rollback" → d.target = p.target ∧ d.mode = p.mode) →
      (d.rollbackRef = none ∨ d.actionType = "rollback" ∧ d.rollbackRef = p.rollbackRef) →
      Continues p d

/-- The row refers to the other, belongs to the same anomaly, and is no earlier. -/
structure Follows (p d : ActionRow K) : Prop where
  parent : d.parentActionId = some p.id
  anomaly : d.anomalyId = p.anomalyId
  later : p.executedAt ≤ d.executedAt
  continues : Continues p d

/-- How far the story has come. -/
def stage (r : ActionRow K) : Nat :=
  match r.result with
  | .pendingApproval => 0
  | .dispatched => if r.actionType = "rollback" then 3 else 1
  | .executed => 2
  | _ => 4

omit [Scalar K] in
theorem stage_le (r : ActionRow K) : stage r ≤ 4 := by
  unfold stage
  split
  · omega
  · split <;> omega
  · omega
  · omega

omit [Scalar K] in
/-- **Every way leads to a later stage.** -/
theorem stage_lt {p d : ActionRow K} (h : Continues p d) : stage p < stage d := by
  cases h with
  | approval hp hd _ hne => simp [stage, hp, hd, hne]
  | reversal hp hd hact => simp [stage, hp, hd, hact]
  | refusal hp hd hact =>
      simp only [stage, hp, hd]
      split <;> omega
  | outcome hp hd hact =>
      simp only [stage, hp, hact] at hd ⊢
      -- a rollback is dispatched at stage 3 and never `executed`
      by_cases hroll : p.actionType = "rollback"
      · rw [if_pos hroll]
        cases hres : d.result <;> simp_all [Executor.recordable]
      · rw [if_neg hroll]
        cases hres : d.result <;> simp_all [Executor.recordable]

/-! ## Requests say what their rows say -/

/-- The request and the `dispatched` row it was published for, field by field. -/
structure Carries (m : RemediationMessage) (D : ActionRow K) : Prop where
  actionId : m.actionId = some D.id
  anomalyId : m.anomalyId = D.anomalyId
  result : D.result = .dispatched
  action : m.action = some D.actionType
  service : D.actionType ≠ "rollback" → m.service = D.target
  mode : D.actionType ≠ "rollback" → m.mode = some D.mode
  target : m.targetActionId = D.rollbackRef

/-- **Every request of the services says what a `dispatched` row of the ledger says.** -/
theorem request_carries (hP : ∀ c a, P c a → noForgery c a = true)
    (h : (system cfg).Run P (World.empty K) c) {m : RemediationMessage}
    (hm : Requested c.world m) : ∃ D ∈ c.world.actionsLog, Carries m D := by
  obtain ⟨e, pre, he, hpub⟩ := published_request hP h hm
  have hlog : ∀ {row : ActionRow K}, (⟨.insertAction row, .ok ()⟩ : SysCall K) ∈ hist pre e.tid →
      row ∈ c.world.actionsLog := by
    intro row hrow
    exact (h.le_of_mem (grows cfg) (he.subset (List.mem_cons_self ..))).actionsLog.subset
      ((changes_of_suffix h he).le.actionsLog.subset (row_of_transcript h he hrow).1)
  generalize e.tag = tag at hpub
  generalize hist pre e.tid = t at hpub hlog
  cases hpub with
  | decision hd hm hatt =>
      obtain ⟨_, _, _, _, hv⟩ := hd
      obtain ⟨_, _, _, _, hmode⟩ := Decision.verdict_dispatched (congrArg Prod.fst hv).symm
      refine ⟨_, hlog (hatt.mem (List.mem_cons_self ..)), ?_⟩
      subst hm
      exact ⟨rfl, rfl, rfl, rfl, fun _ => rfl,
        fun _ => congrArg some ((congrArg Prod.snd hv).trans hmode).symm, rfl⟩
  | approve happ hm hatt =>
      obtain ⟨p, service, _⟩ := happ
      refine ⟨_, hlog (hatt.mem (List.mem_cons_self ..)), ?_⟩
      subst hm
      exact ⟨rfl, rfl, rfl, rfl, fun _ => rfl, fun _ => rfl, rfl⟩
  | rollback hr hm hatt =>
      obtain ⟨row, _⟩ := hr
      refine ⟨_, hlog (hatt.mem (List.mem_cons_self ..)), ?_⟩
      subst hm
      exact ⟨rfl, rfl, rfl, rfl, fun hne => absurd rfl hne, fun hne => absurd rfl hne, rfl⟩

/-! ## Roots -/

/-- The row is a decision about a recorded anomaly. -/
structure IsDecision (w : World K) (row : ActionRow K) : Prop where
  parent : row.parentActionId = none
  reference : row.rollbackRef = none
  about : ∃ a ∈ w.anomalies, row.anomalyId = some a.id ∧ row.target = some a.service

/-- **A row without a parent is a decision.** -/
theorem decision_of_root (h : (system cfg).Run P (World.empty K) c) {row : ActionRow K}
    (hrow : row ∈ c.world.actionsLog) (hroot : row.parentActionId = none) :
    IsDecision c.world row := by
  rcases row_inserted h hrow with hw | ⟨e, pre, he, hop, _⟩
  · cases hw
  · have hcalls := calls_of_suffix h he
    rw [hop] at hcalls
    generalize htag : e.tag = tag at hcalls
    generalize hist pre e.tid = t at hcalls
    have hapi : ∀ {reads : History K → Api.Dispatch → Prop},
        ¬ Api.May reads t (.insertAction row) := by
      intro reads hmay
      cases hmay with
      | read ho => cases ho
      | insert => cases hroot
      | fail => cases hroot
    cases inserted_by hcalls with
    | @decision ma =>
        obtain ⟨t, ht, htag'⟩ := h.tag_of_mem (he.subset (List.mem_cons_self ..))
        obtain ⟨⟨a, ha, hid, hs, _⟩, _⟩ := recorded_of_thread h ht (htag'.trans htag)
        exact ⟨rfl, rfl, a, ha, congrArg some hid.symm, congrArg some hs.symm⟩
    | approve hmay => exact absurd hmay hapi
    | rollback hmay => exact absurd hmay hapi
    | execute => cases hroot

theorem parent_of_pending (h : (system cfg).Run P (World.empty K) c) {p : ActionRow K}
    (hp : p ∈ c.world.actionsLog) (hres : p.result = .pendingApproval) :
    p.parentActionId = none := by
  rcases row_inserted h hp with hw | ⟨e, pre, he, hop, _⟩
  · cases hw
  · have hcalls := calls_of_suffix h he
    rw [hop] at hcalls
    generalize e.tag = tag at hcalls
    generalize hist pre e.tid = t at hcalls
    cases inserted_by hcalls with
    | decision => rfl
    | approve hmay => rcases (row_of_api hmay).1 with h' | h' <;> cases hres.symm.trans h'
    | rollback hmay => rcases (row_of_api hmay).1 with h' | h' <;> cases hres.symm.trans h'
    | execute _ ha => cases ha <;> cases hres

/-! ## Everybody goes on from a row of the ledger -/

/-- What a thread has read in the ledger is there when it writes. -/
theorem row_of_read (h : (system cfg).Run P (World.empty K) c) {e : SysEvent K}
    {pre : List (SysEvent K)} (he : e :: pre <:+ c.trace) {call : SysCall K}
    (hcall : call ∈ hist pre e.tid) {row : ActionRow K} (hreads : ∀ {v v' : World K} {x : Choice},
      exec v call.op x = (call.res, v') → row ∈ v.actionsLog) : row ∈ e.before.actionsLog := by
  have hpre : pre <:+ c.trace := (List.suffix_cons e pre).trans he
  obtain ⟨er, prer, x, her, _, _, hx⟩ := answered h hpre hcall
  exact (h.le_of_suffix (grows cfg) he (her.subset (List.mem_cons_self ..))).actionsLog.subset
    ((changes_of_exec hx).le.actionsLog.subset (hreads hx))

/-- The stamp of a row that a thread wrote is no later than what the clock tells it next. -/
theorem stamp_le_now (h : (system cfg).Run P (World.empty K) c) {e : SysEvent K}
    {pre : List (SysEvent K)} (he : e :: pre <:+ c.trace) {now now' : Time} {l t : History K}
    (ht : hist pre e.tid = l ++ ⟨.now, .ok now'⟩ :: t)
    (hnow : (⟨.now, .ok now⟩ : SysCall K) ∈ t) : now ≤ now' := by
  obtain ⟨en, pren, x, hen, hi, _, htn, hx⟩ :=
    answered_after h ((List.suffix_cons e pre).trans he) ht
  have hle := now_le_time h (hen.trans ((List.suffix_cons e pre).trans he))
    (by rw [hi, htn]; exact hnow)
  rwa [time, ← exec_now (congrArg Prod.fst hx)] at hle

/-- The row a request found for an anomaly is there, is about it, and is no later than the clock. -/
theorem row_of_latest (h : (system cfg).Run P (World.empty K) c) {e : SysEvent K}
    {pre : List (SysEvent K)} (he : e :: pre <:+ c.trace) {now : Time} {t : History K}
    (ht : hist pre e.tid = ⟨.now, .ok now⟩ :: t) {anomalyId : Uuid} {result : ActionResult}
    {p : ActionRow K} (hread : (⟨.latestAction anomalyId result, .ok (some p)⟩ : SysCall K) ∈ t) :
    p ∈ e.before.actionsLog ∧ p ∈ c.world.actionsLog ∧ p.anomalyId = some anomalyId
      ∧ p.result = result ∧ p.executedAt ≤ now := by
  have hpre : pre <:+ c.trace := (List.suffix_cons e pre).trans he
  have hasked : (⟨.latestAction anomalyId result, .ok (some p)⟩ : SysCall K) ∈ hist pre e.tid :=
    ht ▸ List.mem_cons_of_mem _ hread
  have hp := row_of_read h he hasked fun hx => (exec_latestAction (congrArg Prod.fst hx)).1
  obtain ⟨er, prer, x, her, _, _, hx⟩ := answered h hpre hasked
  obtain ⟨_, hpid, hpres⟩ := exec_latestAction (congrArg Prod.fst hx)
  have htold : hist pre e.tid = [] ++ ⟨.now, .ok now⟩ :: t := ht
  obtain ⟨hlog, hle⟩ := executedAt_le_now h he htold hread
    fun hx => (exec_latestAction (congrArg Prod.fst hx)).1
  exact ⟨hp, hlog, hpid, hpres, hle⟩

/-- **An approval follows the pending row it was given.** -/
theorem follows_of_approval (h : (system cfg).Run P (World.empty K) c) {e : SysEvent K}
    {pre : List (SysEvent K)} (he : e :: pre <:+ c.trace) {user : Api.User} {anomalyId : Uuid}
    (htag : e.tag = .approve user anomalyId) {d : Api.Dispatch} {id : Uuid} {now : Time}
    {h₀ : History K} (hop : e.op = .insertAction (d.row id now))
    (ht : hist pre e.tid = ⟨.now, .ok now⟩ :: ⟨.uuid4, .ok id⟩ :: h₀)
    (happ : Api.Approves user anomalyId h₀ d) :
    ∃ p ∈ e.before.actionsLog, Follows p (d.row id now) := by
  obtain ⟨b, hb, htarget, hbid, _⟩ := approved_of_insert h he htag hop rfl
  obtain ⟨p, service, _⟩ := happ
  obtain ⟨hp, hlog, hpid, hpres, hle⟩ := row_of_latest h he ht (.tail _ (.tail _ (.head _)))
  obtain ⟨_, _, a, ha, hpa, hpt⟩ := decision_of_root h hlog (parent_of_pending h hlog hpres)
  -- the service that was looked up is that of the pending row: both are the anomaly's
  have hab : a = b := by
    refine anomaly_unique h ha hb ?_
    rw [hpid] at hpa
    exact (Option.some.inj hpa).symm.trans (Option.some.inj hbid)
  refine ⟨p, hp, rfl, hpid.symm, hle, .approval hpres rfl rfl ?_ ?_ rfl⟩
  · show p.actionType ≠ "rollback"
    have hread : (⟨.latestAction anomalyId .pendingApproval, .ok (some p)⟩ : SysCall K)
        ∈ hist pre e.tid := by
      rw [ht]
      exact .tail _ (.tail _ (.tail _ (.head _)))
    exact pending_ne_rollback h ((List.suffix_cons e pre).trans he) hread
  · rw [htarget, hpt, hab]

/-- An executed row says for which service. -/
theorem target_of_executed (h : (system cfg).Run P (World.empty K) c) {p : ActionRow K}
    (hp : p ∈ c.world.actionsLog) (hres : p.result = .executed) : p.target.isSome := by
  rcases row_inserted h hp with hw | ⟨e, pre, he, hop, _⟩
  · cases hw
  · have hcalls := calls_of_suffix h he
    rw [hop] at hcalls
    obtain ⟨_, _, _, _, _, _, _, _, _, rfl, _⟩ :=
      executor_of_inserted (inserted_by hcalls) (Or.inl (by rw [hres]; rfl))
    rfl

/-- **A request to roll back follows the executed row it is about.** -/
theorem follows_of_reversal (h : (system cfg).Run P (World.empty K) c) {e : SysEvent K}
    {pre : List (SysEvent K)} (he : e :: pre <:+ c.trace) {user : Api.User} {anomalyId : Uuid}
    {d : Api.Dispatch} {id : Uuid} {now : Time} {h₀ : History K}
    (ht : hist pre e.tid = ⟨.now, .ok now⟩ :: ⟨.uuid4, .ok id⟩ :: h₀)
    (hrev : Api.Reverses user anomalyId h₀ d) :
    ∃ p ∈ e.before.actionsLog, Follows p (d.row id now) := by
  obtain ⟨p, _⟩ := hrev
  obtain ⟨hp, hlog, hpid, hpres, hle⟩ := row_of_latest h he ht (.tail _ (.head _))
  refine ⟨p, hp, rfl, hpid.symm, hle, .reversal hpres rfl rfl ?_ rfl⟩
  obtain ⟨s, hs⟩ := Option.isSome_iff_exists.mp (target_of_executed h hlog hpres)
  show some (p.target.getD "") = p.target
  rw [hs]
  rfl

/-- **A failed dispatch follows the row of the dispatch.** -/
theorem follows_of_refusal (h : (system cfg).Run P (World.empty K) c) {e : SysEvent K}
    {pre : List (SysEvent K)} (he : e :: pre <:+ c.trace) {d : Api.Dispatch} {id id' : Uuid}
    {now now' : Time} {err : Err} {h₀ t : History K}
    (ht : hist pre e.tid = ⟨.now, .ok now'⟩ :: ⟨.uuid4, .ok id'⟩ :: t)
    (hpub : Published (.remediation (d.request id)) (Api.dispatched h₀ d id now) t (.error err)) :
    ∃ p ∈ e.before.actionsLog, Follows p (d.failedRow id id' now') := by
  have hmem : ∀ {call : SysCall K}, call ∈ Api.dispatched h₀ d id now → call ∈ t := by
    intro call hcall
    cases hpub with
    | refused => exact .tail _ hcall
    | second => exact .tail _ (.tail _ hcall)
  have hrow : (⟨.insertAction (d.row id now), .ok ()⟩ : SysCall K) ∈ hist pre e.tid := by
    rw [ht]
    exact .tail _ (.tail _ (hmem (.head _)))
  have hnow := stamp_le_now h he (l := []) ht (.tail _ (hmem (.tail _ (.head _))))
  exact ⟨_, (row_of_transcript h he hrow).1, rfl, rfl, hnow, .refusal rfl rfl rfl rfl rfl⟩

/-- **An outcome follows the row of the request it answers.** -/
theorem follows_of_outcome (hP : ∀ c a, P c a → noForgery c a = true)
    (h : (system cfg).Run P (World.empty K) c) {e : SysEvent K} {pre : List (SysEvent K)}
    (he : e :: pre <:+ c.trace) {m : RemediationMessage} (htag : e.tag = .execute m)
    {req : Executor.Request} {t : History K} {now : Time} {id : Uuid} {res : ActionResult}
    {extra : Executor.Recorded K} (hparse : Executor.parseRequest m = .ok req)
    (ha : Executor.Answers cfg.executor req t res extra)
    (ht : hist pre e.tid = ⟨.uuid4, .ok id⟩ :: ⟨.now, .ok now⟩ :: t) :
    ∃ p ∈ e.before.actionsLog,
      Follows p (Executor.outcomeRow cfg.executor id now req res extra) := by
  have hpre : pre <:+ c.trace := (List.suffix_cons e pre).trans he
  -- the row of the request was there when the executor looked at the clock
  obtain ⟨en, pren, x, hen, hi, _, _, hxn⟩ := answered_after h hpre (l := [_]) ht
  have hen' := hen.trans hpre
  obtain ⟨c₀, _, _, hr₀, _, hw₀, _, ht₀, _⟩ := h.origin hen'
  have htag₀ : en.tag = .execute m := by
    rw [← htag]
    exact h.tag_eq (hen'.subset (List.mem_cons_self ..)) (he.subset (List.mem_cons_self ..)) hi
  obtain ⟨D, hD, hc⟩ := request_carries hP hr₀ ((delivered_of_thread hr₀ ht₀).1 m htag₀)
  have hle : D.executedAt ≤ now := by
    rw [exec_now (congrArg Prod.fst hxn), ← hw₀]
    exact executedAt_le_clock hr₀ hD
  have hlog : D ∈ e.before.actionsLog :=
    (h.le_of_suffix (grows cfg) he (hen.subset (List.mem_cons_self ..))).actionsLog.subset
      ((changes_of_suffix h hen').le.actionsLog.subset (hw₀ ▸ hD))
  obtain ⟨hid, hservice, haction, hanomaly, hmode, htarget⟩ := Executor.parseRequest_ok hparse
  have hact : req.action = D.actionType := Option.some.inj (haction.symm.trans hc.action)
  refine ⟨D, hlog, hid.symm.trans hc.actionId, hanomaly.trans hc.anomalyId, hle,
    .outcome hc.result ha.recordable hact (fun hne => ?_) ?_⟩
  · have hne' : D.actionType ≠ "rollback" := hact ▸ hne
    refine ⟨hservice.symm.trans (hc.service hne'), ?_⟩
    show req.mode = D.mode
    rw [hmode, hc.mode hne']
    rfl
  · show extra.rollbackRef = none ∨ req.action = "rollback" ∧ extra.rollbackRef = D.rollbackRef
    cases hr : extra.rollbackRef with
    | none => exact Or.inl rfl
    | some r =>
        -- the row that was loaded by the id is the row of the id
        obtain ⟨hroll, i, row, hasked, hrow, hload⟩ := ha.reference hr
        have hasked' : (⟨.actionById i, .ok (some row)⟩ : SysCall K) ∈ hist pre e.tid := by
          rw [ht]
          exact .tail _ (.tail _ hload)
        obtain ⟨el, _, xl, _, _, _, hxl⟩ := answered h hpre hasked'
        obtain ⟨_, hrid⟩ := exec_actionById (congrArg Prod.fst hxl)
        refine Or.inr ⟨hroll, ?_⟩
        rw [← hc.target, ← htarget, hasked, ← hrow, hrid]

/-- **Every row is a decision or follows a row that was there.** -/
theorem follows_of_insert (hP : ∀ c a, P c a → noForgery c a = true)
    (h : (system cfg).Run P (World.empty K) c) {e : SysEvent K} {pre : List (SysEvent K)}
    (he : e :: pre <:+ c.trace) {row : ActionRow K} (hop : e.op = .insertAction row) :
    row.parentActionId = none ∨ ∃ p ∈ e.before.actionsLog, Follows p row := by
  have hcalls := calls_of_suffix h he
  rw [hop] at hcalls
  generalize htag : e.tag = tag at hcalls
  generalize ht : hist pre e.tid = t at hcalls
  cases inserted_by hcalls with
  | decision => exact Or.inl rfl
  | approve hmay =>
      cases hmay with
      | read ho => cases ho
      | insert hd => exact Or.inr (follows_of_approval h he htag hop ht hd)
      | fail _ hpub => exact Or.inr (follows_of_refusal h he ht hpub)
  | rollback hmay =>
      cases hmay with
      | read ho => cases ho
      | insert hd => exact Or.inr (follows_of_reversal h he ht hd)
      | fail _ hpub => exact Or.inr (follows_of_refusal h he ht hpub)
  | execute hp ha => exact Or.inr (follows_of_outcome hP h he htag hp ha ht)

/-- The ledger as a log of stories. -/
theorem rooted_reachable (hP : ∀ c a, P c a → noForgery c a = true)
    (h : (system cfg).Run P (World.empty K) c) :
    Rooted (fun r => r.parentActionId = none) Follows c.world.actionsLog := by
  refine h.keeps (I := fun v _ => Rooted (fun r => r.parentActionId = none) Follows v.actionsLog)
    .nil ?_ ?_ ?_
  · intro c x w' tag p hst ih
    rw [(start_starts hst).1.actionsLog]
    exact ih
  · intro c i x tag o k _ _ _ hr' ih
    dsimp only [system]
    rcases (exec_changes c.world o x).actionsLog with hsame | ⟨row, hop, _, happ⟩
    · rwa [hsame]
    · rw [happ]
      exact ih.append (follows_of_insert hP hr' (List.suffix_refl _) hop)
  · intro c v ih
    cases v <;> exact ih

/--
**The ledger tells one story after the other.**

From any row there is a way back, each row naming the one before it as its parent:
all about one anomaly, none later than the next, each going on from the other in one
of the four ways, in the order in which they were appended. It has at most four
steps and begins with a decision about an anomaly on record.
-/
theorem ledger_lineage (h : (system cfg).Run (fun c a => noForgery c a) (World.empty K) c)
    {row : ActionRow K} (hrow : row ∈ c.world.actionsLog) :
    ∃ path, Lineage (IsDecision c.world) Follows c.world.actionsLog path row
      ∧ path.length ≤ 4 := by
  obtain ⟨path, hpath, hlen⟩ := (rooted_reachable (fun _ _ hp => hp) h).lineage
    (fun p d hf => stage_lt hf.continues) hrow
  refine ⟨path, ⟨hpath.sublist, hpath.linked, fun r hr => ?_⟩, hlen.trans (stage_le row)⟩
  exact decision_of_root h (hpath.sublist.subset (List.mem_of_head? hr)) (hpath.root r hr)

namespace Scenario

/-- The throttle is written, and rolled back again. -/
def rolledBack : List (SysAct ℚ) :=
  throttled ++ calls 12 4 ++ [.start (.rollback sre 1)] ++ calls 13 5 ++
    [.start (.remediation 0)] ++ calls 14 6

theorem rolledBack_run :
    ∃ c, (system settings).Run (fun c a => noForgery c a) (World.empty ℚ) c
      ∧ ∃ row ∈ c.world.actionsLog, row.result = .rolledBack := by
  obtain ⟨c, hrun, hcheck⟩ := System.exists_run (S := system settings) (w := World.empty ℚ)
    (p := noForgery) (l := rolledBack)
    (q := fun c => c.world.actionsLog.any fun r => r.result = .rolledBack) (by decide +kernel)
  simp only [List.any_eq_true, decide_eq_true_eq] at hcheck
  exact ⟨c, hrun, hcheck⟩

end Scenario

open Scenario in
/-- The full length: decided, approved, executed, rolled back. -/
theorem ledger_lineage_rolledBack :
    ∃ (c : SysConfig ℚ) (row : ActionRow ℚ), row ∈ c.world.actionsLog
      ∧ row.result = .rolledBack ∧ ∃ path,
        Lineage (IsDecision c.world) Follows c.world.actionsLog path row ∧ path.length ≤ 4 := by
  obtain ⟨c, hrun, row, hrow, hres⟩ := rolledBack_run
  exact ⟨c, row, hrow, hres, ledger_lineage hrun hrow⟩

end HyperTrace.Proof
