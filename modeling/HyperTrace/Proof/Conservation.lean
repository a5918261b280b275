import HyperTrace.Effect.Channel
import HyperTrace.Proof.Budget
import HyperTrace.Proof.Dwell
import HyperTrace.Proof.Floor
import HyperTrace.Proof.Writes

/-!
# What becomes of each message

Between the detector and the cluster every message is sent under an id its thread has just
drawn. So long as the broker delivers nothing again, the handlers that were started for an
id, and the messages that wait under it, are together the ones that were sent: one, or two
where the confirmation of the first was lost. And each handler writes one row at most.
-/

namespace HyperTrace.Proof

open HyperTrace Effect

variable {K : Type}

/-- Only the services put messages on the queues, and none is delivered again. -/
def ownMessages (_ : SysConfig K) : SysAct K → Bool
  | .env (.forge _) => false
  | .env (.redeliverAnomaly _) => false
  | .env (.redeliverRemediation _) => false
  | _ => true

/-- `t` stands before an attempt to publish `p` under an id that was drawn for it. -/
inductive SentUnder (id : Uuid) (p : Payload K) (t : History K) : Prop where
  | mk {h l u : History K} : Attempts p h t → h = l ++ ⟨.uuid4, .ok id⟩ :: u →
      (∀ c ∈ h, isPublish c.op = false) → SentUnder id p t

namespace SentUnder

variable {id : Uuid} {p : Payload K} {t : History K}

theorem drawn (h : SentUnder id p t) : ∃ l u, t = l ++ ⟨.uuid4, .ok id⟩ :: u := by
  obtain @⟨_, l, u, hatt, rfl, -⟩ := h
  cases hatt with
  | first => exact ⟨l, u, rfl⟩
  | second => exact ⟨_ :: l, u, rfl⟩

/-- There was one attempt before at most, and it failed. -/
theorem attempts (h : SentUnder id p t) :
    t.countP (fun c => isPublish c.op) ≤ 1 ∧ ∀ c ∈ t, isPublish c.op = true → c.isOk = false := by
  obtain @⟨h, l, u, hatt, -, hnone⟩ := h
  have hzero : h.countP (fun c => isPublish c.op) = 0 := by
    rw [List.countP_eq_zero]
    intro c hc
    rw [hnone c hc]
    exact Bool.false_ne_true
  cases hatt with
  | first =>
      refine ⟨by omega, fun c hc hp => ?_⟩
      rw [hnone c hc] at hp
      cases hp
  | second =>
      refine ⟨?_, fun c hc hp => ?_⟩
      · rw [List.countP_cons, hzero]
        split <;> omega
      · rcases List.mem_cons.mp hc with rfl | hc
        · rfl
        · rw [hnone c hc] at hp
          cases hp

end SentUnder

theorem unpublished_of_idle {h : History K} (hh : Idle h) : ∀ c ∈ h, isPublish c.op = false := by
  intro c hc
  have := hh c hc
  cases hop : c.op with
  | basicPublish p => rw [hop] at this; cases this
  | _ => rfl

section

variable [Scalar K] {cfg : Settings} {P : SysConfig K → SysAct K → Prop} {w : World K}
variable {c : SysConfig K}

/-- A request is sent under the id of its row. -/
theorem request_under {tag : Tag K} {t : History K} {m : RemediationMessage}
    (h : Calls cfg tag t (.basicPublish (.remediation m))) :
    ∃ id, m.actionId = some id ∧ SentUnder id (.remediation m) t := by
  cases published_by h with
  | @decision _ h₀ _ _ _ _ id now hd hm hatt =>
      refine ⟨id, by rw [hm]; rfl, .mk (l := [_, _]) (u := h₀) hatt rfl ?_⟩
      cases hd with
      | mk hidle =>
          simp only [Decision.written, List.forall_mem_cons]
          exact ⟨rfl, rfl, rfl, rfl, rfl, unpublished_of_idle hidle⟩
  | @approve _ _ h₀ _ d id now hd hm hatt =>
      cases hd with
      | mk =>
          refine ⟨id, by rw [hm]; rfl, .mk (l := [_, _]) hatt rfl ?_⟩
          simp only [Api.dispatched, List.forall_mem_cons]
          exact ⟨rfl, rfl, rfl, rfl, rfl, fun c hc => by cases hc⟩
  | @rollback _ _ h₀ _ d id now hd hm hatt =>
      cases hd with
      | mk =>
          refine ⟨id, by rw [hm]; rfl, .mk (l := [_, _]) hatt rfl ?_⟩
          simp only [Api.dispatched, List.forall_mem_cons]
          exact ⟨rfl, rfl, rfl, rfl, fun c hc => by cases hc⟩

/-- An anomaly is sent under its own id. -/
theorem anomaly_under {tag : Tag K} {t : History K} {m : AnomalyMessage K}
    (h : Calls cfg tag t (.basicPublish (.anomaly m))) : SentUnder m.id (.anomaly m) t := by
  rcases detecting h rfl with ⟨m', -, hmay⟩ | ⟨m', rfl, hmay⟩
  · cases hmay
  · cases hmay with
    | early _ ho => cases ho
    | @publish h₀ _ f id now hj hf hatt =>
        refine .mk (l := [_]) (u := _ :: h₀) hatt rfl ?_
        simp only [Behaviour.inserted, List.forall_mem_cons]
        exact ⟨rfl, rfl, rfl, judged_unpublished hj⟩

/-- Threads that draw the same id are the same. -/
theorem tid_of_drawn (h : (system cfg).Run P w c) {e e' : SysEvent K} {pre pre' : List (SysEvent K)}
    (he : e :: pre <:+ c.trace) (he' : e' :: pre' <:+ c.trace) {id : Uuid} {l t r u : History K}
    (ht : hist pre e.tid = l ++ ⟨.uuid4, .ok id⟩ :: t)
    (hu : hist pre' e'.tid = r ++ ⟨.uuid4, .ok id⟩ :: u) : e'.tid = e.tid := by
  obtain ⟨d, pre₁, hd, hi, hcall, -⟩ := hist_split ht
  obtain ⟨d', pre₂, hd', hi', hcall', -⟩ := hist_split hu
  have hsuf := hd.trans ((List.suffix_cons e pre).trans he)
  have hsuf' := hd'.trans ((List.suffix_cons e' pre').trans he')
  rcases suffix_cases hsuf hsuf' with ⟨rfl, -⟩ | hlt | hlt
  · exact hi'.symm.trans hi
  · exact absurd (uuid4_lt h hsuf' hlt hcall' hcall) (lt_irrefl _)
  · exact absurd (uuid4_lt h hsuf hlt hcall hcall') (lt_irrefl _)

/-- One of the queues between the services, and the id its messages are sent under. -/
structure Lane (K : Type) [Scalar K] (cfg : Settings) (M : Type) where
  channel : Channel (system (K := K) cfg) M
  payload : M → Payload K
  key : M → Option Uuid
  appends : ∀ w o x, channel.queue (exec w o x).2 = channel.queue w
    ∨ ∃ m, o = .basicPublish (payload m) ∧ channel.queue (exec w o x).2 = channel.queue w ++ [m]
  takes : ∀ tag, channel.taken tag = [] ∨ ∃ m, channel.taken tag = [m]
  init : channel.queue (World.empty K) = []
  env : ∀ c e, ownMessages c (.env e) = true → channel.queue (World.env c.world e)
    = channel.queue c.world
  under : ∀ {tag t m}, Calls cfg tag t (.basicPublish (payload m)) →
    ∃ id, key m = some id ∧ SentUnder id (payload m) t

namespace Lane

variable {M : Type} (L : Lane K cfg M) (id : Uuid)

/-- The message goes by the id. -/
def names (m : M) : Bool := L.key m = some id

/-- The thread handles a message of the id. -/
def handles (tag : Tag K) : Bool := (L.channel.taken tag).any (L.names id)

/-- The call put a message of the id on the queue. -/
def sends (e : SysEvent K) : Bool := (L.channel.sent e).any (L.names id)

theorem sends_iff {e : SysEvent K} (hx : ∃ x, exec e.before e.op x = (e.res, e.after)) :
    (L.channel.sent e).countP (L.names id) = (L.sends id e).toNat
      ∧ (L.sends id e = true → ∃ m, e.op = .basicPublish (L.payload m) ∧ L.key m = some id) := by
  obtain ⟨x, hx⟩ := hx
  have hafter : e.after = (exec e.before e.op x).2 := (congrArg Prod.snd hx).symm
  rcases L.appends e.before e.op x with hsame | ⟨m, hop, happ⟩
  · have hsent : L.channel.sent e = [] := by
      rw [Channel.sent, hafter, hsame, List.drop_length]
    rw [sends, hsent]
    exact ⟨rfl, fun hs => by cases hs⟩
  · have hsent : L.channel.sent e = [m] := by
      rw [Channel.sent, hafter, happ, List.drop_left]
    rw [sends, hsent, List.any_cons, List.any_nil, Bool.or_false, List.countP_singleton]
    refine ⟨?_, fun hs => ⟨m, hop, by simpa [names] using hs⟩⟩
    cases L.names id m <;> rfl

theorem handles_eq (tag : Tag K) :
    (L.channel.taken tag).countP (L.names id) = (L.handles id tag).toNat := by
  rcases L.takes tag with hnone | ⟨m, hone⟩
  · rw [handles, hnone]
    rfl
  · rw [handles, hone, List.any_cons, List.any_nil, Bool.or_false, List.countP_singleton]
    cases L.names id m <;> rfl

/-- **Sent is handled or waits.** -/
theorem conserved (h : (system cfg).Run (fun c a => ownMessages c a) (World.empty K) c) :
    c.threads.countP (fun t => L.handles id t.tag)
        + (L.channel.queue c.world).countP (L.names id) = c.trace.countP (L.sends id) := by
  have hlaw := L.channel.countP_conserved L.init L.env h (L.names id)
  rw [sum_map_toNat fun t _ => L.handles_eq id t.tag, sum_map_toNat fun e he => ?_] at hlaw
  · exact hlaw
  · obtain ⟨pre, hsuf⟩ := exists_suffix_of_mem he
    exact (L.sends_iff id (exec_of_suffix h hsuf)).1

/-- What has been sent when a message is sent again: its first copy, whose confirmation was lost. -/
theorem sent_before (h : (system cfg).Run P w c) {e : SysEvent K} {pre : List (SysEvent K)}
    (he : e :: pre <:+ c.trace) (hs : L.sends id e = true) :
    pre.countP (L.sends id) ≤ 1
      ∧ ∀ e' ∈ pre, L.sends id e' = true → (!e'.call.isOk) = true := by
  have hpre : pre <:+ c.trace := (List.suffix_cons e pre).trans he
  have hunder : ∀ {e : SysEvent K} {pre : List (SysEvent K)}, e :: pre <:+ c.trace →
      L.sends id e = true → isPublish e.op = true ∧ ∃ p, SentUnder id p (hist pre e.tid) := by
    intro e pre he hs
    obtain ⟨m, hop, hkey⟩ := (L.sends_iff id (exec_of_suffix h he)).2 hs
    have hcalls := calls_of_suffix h he
    rw [hop] at hcalls
    obtain ⟨id', hkey', hu⟩ := L.under hcalls
    rw [hkey] at hkey'
    cases hkey'
    exact ⟨by rw [hop]; rfl, _, hu⟩
  obtain ⟨-, p, hp⟩ := hunder he hs
  obtain ⟨l, t, hdrawn⟩ := hp.drawn
  -- all of them are attempts of one thread
  have hsame : ∀ e' ∈ pre, L.sends id e' = true → e'.tid = e.tid ∧ isPublish e'.op = true := by
    intro e' he' hs'
    obtain ⟨pre', hsuf⟩ := exists_suffix_of_mem he'
    obtain ⟨hop, p', hp'⟩ := hunder (hsuf.trans hpre) hs'
    obtain ⟨r, u, hdrawn'⟩ := hp'.drawn
    exact ⟨tid_of_drawn h he (hsuf.trans hpre) hdrawn hdrawn', hop⟩
  constructor
  · refine le_trans ?_ hp.attempts.1
    rw [hist, List.countP_map, List.countP_filter]
    refine List.countP_mono_left fun e' he' hs' => ?_
    obtain ⟨hi, hop⟩ := hsame e' he' hs'
    simpa [Event.call, hi] using hop
  · intro e' he' hs'
    obtain ⟨hi, hop⟩ := hsame e' he' hs'
    rw [hp.attempts.2 e'.call (mem_hist.mpr ⟨e', he', hi, rfl⟩) hop]
    rfl

end Lane

/-! ## The rows that answer -/

/-- The call wrote a row of the kind. -/
def writes (q : ActionRow K → Bool) (e : SysEvent K) : Bool := wrote e && (rowOf e.op).any q

omit [Scalar K] in
theorem writes_step {e : SysEvent K} (hch : Changes e.before e.op e.after)
    (q : ActionRow K → Bool) : e.after.actionsLog.countP q
      = e.before.actionsLog.countP q + if writes q e = true then 1 else 0 := by
  rcases hch.actionsLog with hsame | ⟨row, hop, -, hlog⟩
  · have hw : wrote e = false := by
      rw [wrote, hsame, decide_eq_false_iff_not]
      omega
    rw [hsame, writes, hw]
    rfl
  · have hw : wrote e = true := by
      rw [wrote, hlog, List.length_append, decide_eq_true_eq]
      exact Nat.lt_succ_self _
    rw [hlog, List.countP_append, List.countP_singleton, writes, hw, hop]
    rfl

/-- **The ledger has the rows that calls wrote.** -/
theorem ledger_countP (h : (system cfg).Run P (World.empty K) c) (q : ActionRow K → Bool) :
    c.world.actionsLog.countP q = c.trace.countP (writes q) := by
  refine h.keeps (I := fun v tr => v.actionsLog.countP q = tr.countP (writes q)) rfl ?_ ?_ ?_
  · intro c x w' tag p hst ih
    rw [(start_starts hst).1.actionsLog]
    exact ih
  · intro c i x tag o k _ _ _ _ ih
    rw [List.countP_cons, ← ih]
    exact writes_step (e := ⟨i, tag, o, (exec c.world o x).1, c.world, _⟩)
      (exec_changes c.world o x) q
  · intro c v ih
    have hlog : (c.world.env v).actionsLog = c.world.actionsLog := by cases v <;> rfl
    exact (congrArg (List.countP q) hlog).trans ih

/-- Rows that a handler writes first of all are no more than the handlers. -/
theorem rows_le (h : (system cfg).Run P (World.empty K) c) {q : ActionRow K → Bool}
    {u : Tag K → Bool} (hq : ∀ {tag t row}, Calls cfg tag t (.insertAction row) → q row = true →
      u tag = true ∧ Unrecorded t) :
    c.world.actionsLog.countP q ≤ c.threads.countP fun t => u t.tag := by
  have hwrites : ∀ {e : SysEvent K} {pre : List (SysEvent K)}, e :: pre <:+ c.trace →
      writes q e = true → u e.tag = true ∧ Unrecorded (hist pre e.tid)
        ∧ ∃ row, e.op = .insertAction row := by
    intro e pre he hw
    obtain ⟨row, hrow, hqrow⟩ := (Option.any_eq_true _ _).mp (Bool.and_eq_true_iff.mp hw).2
    have hop : e.op = .insertAction row := by
      generalize e.op = o at hrow
      cases o with
      | insertAction row' =>
          cases hrow
          rfl
      | _ => cases hrow
    have hcalls := calls_of_suffix h he
    rw [hop] at hcalls
    obtain ⟨hu, hun⟩ := hq hcalls hqrow
    exact ⟨hu, hun, row, hop⟩
  rw [ledger_countP h]
  refine h.countP_le_threads (fun e he hw => ?_) ?_
  · obtain ⟨pre, hsuf⟩ := exists_suffix_of_mem he
    exact (hwrites hsuf hw).1
  · intro e pre he hw e' hmem hw' hi
    obtain ⟨pre', hsuf⟩ := exists_suffix_of_mem hmem
    obtain ⟨-, -, row, hop⟩ := hwrites (hsuf.trans ((List.suffix_cons e pre).trans he)) hw'
    exact (hwrites he hw).2.1 _ (mem_hist.mpr ⟨e', hmem, hi.symm, rfl⟩) row hop

/-! ## The two queues -/

/-- `remediation-executor.actions`, from the decision engine and the API to the executor. -/
def requestLane (K : Type) [Scalar K] (cfg : Settings) : Lane K cfg RemediationMessage where
  channel :=
    { queue := World.remediationQueue
      taken := fun tag =>
        match tag with
        | .execute m => [m]
        | _ => []
      exec := fun w o x => by
        rcases (exec_changes w o x).remediationQueue with hsame | ⟨m, -, happ⟩
        · exact hsame ▸ List.prefix_refl _
        · exact happ ▸ List.prefix_append _ _
      start := fun hs => by
        rcases (start_starts hs).1.remediation with ⟨m, k, rfl, hk, hq, -⟩ | ⟨hne, hq, -⟩
        · obtain ⟨hlt, rfl⟩ := List.getElem?_eq_some_iff.mp hk
          rw [hq]
          exact (List.getElem_cons_eraseIdx_perm hlt).symm
        · rename_i tag _
          cases tag with
          | execute m => exact absurd rfl (hne m)
          | _ => exact hq ▸ .refl _ }
  payload := .remediation
  key := RemediationMessage.actionId
  appends w o x := (exec_changes w o x).remediationQueue
  takes tag := by
    cases tag with
    | execute m => exact Or.inr ⟨m, rfl⟩
    | _ => exact Or.inl rfl
  init := rfl
  env c e he := by
    cases e with
    | tick n => rfl
    | changeCluster cl => rfl
    | _ => cases he
  under := request_under

/-- `decision-policy.anomalies`, from the detector to the decision engine. -/
def anomalyLane (K : Type) [Scalar K] (cfg : Settings) : Lane K cfg (AnomalyMessage K) where
  channel :=
    { queue := World.anomalyQueue
      taken := fun tag =>
        match tag with
        | .anomaly m => [m]
        | _ => []
      exec := fun w o x => by
        rcases (exec_changes w o x).anomalyQueue with hsame | ⟨m, -, happ⟩
        · exact hsame ▸ List.prefix_refl _
        · exact happ ▸ List.prefix_append _ _
      start := fun hs => by
        rcases (start_starts hs).1.anomaly with ⟨m, k, rfl, hk, hq, -⟩ | ⟨hne, hq, -⟩
        · obtain ⟨hlt, rfl⟩ := List.getElem?_eq_some_iff.mp hk
          rw [hq]
          exact (List.getElem_cons_eraseIdx_perm hlt).symm
        · rename_i tag _
          cases tag with
          | anomaly m => exact absurd rfl (hne m)
          | _ => exact hq ▸ .refl _ }
  payload := .anomaly
  key m := some m.id
  appends w o x := (exec_changes w o x).anomalyQueue
  takes tag := by
    cases tag with
    | anomaly m => exact Or.inr ⟨m, rfl⟩
    | _ => exact Or.inl rfl
  init := rfl
  env c e he := by
    cases e with
    | tick n => rfl
    | changeCluster cl => rfl
    | _ => cases he
  under h := ⟨_, rfl, anomaly_under h⟩

/-- What became of the messages of an id, and the rows that answer them. -/
structure Tallied {M : Type} (L : Lane K cfg M) (c : SysConfig K) (id : Uuid)
    (answers : ActionRow K → Bool) : Prop where
  conserved : c.threads.countP (fun t => L.handles id t.tag)
    + (L.channel.queue c.world).countP (L.names id) = c.trace.countP (L.sends id)
  twice : c.trace.countP (L.sends id) ≤ 2
  /-- A second copy is only sent when the confirmation of the first was lost. -/
  copies : c.trace.countP (L.sends id)
    ≤ 1 + c.trace.countP fun e => L.sends id e && !e.call.isOk
  answered : c.world.actionsLog.countP answers ≤ c.threads.countP fun t => L.handles id t.tag

theorem tallied {M : Type} (L : Lane K cfg M)
    (h : (system cfg).Run (fun c a => ownMessages c a) (World.empty K) c) (id : Uuid)
    {answers : ActionRow K → Bool} (hq : ∀ {tag t row}, Calls cfg tag t (.insertAction row) →
      answers row = true → L.handles id tag = true ∧ Unrecorded t) :
    Tallied L c id answers where
  conserved := L.conserved id h
  twice := (countP_le_of_newest fun _ _ he hs => L.sent_before id h he hs).1
  copies := (countP_le_of_newest fun _ _ he hs => L.sent_before id h he hs).2
  answered := rows_le h hq

end

/-- The row says what came of a dispatched one. -/
def outcomeOf (id : Uuid) (row : ActionRow K) : Bool :=
  row.parentActionId = some id && row.result ≠ .dispatched && row.result ≠ .dispatchFailed

/-- The row is a decision about an anomaly. -/
def decisionOn (id : Uuid) (row : ActionRow K) : Bool :=
  row.anomalyId = some id && row.parentActionId = none

section

variable [Scalar K] {cfg : Settings} {c : SysConfig K}

theorem executes_of_outcome {tag : Tag K} {t : History K} {row : ActionRow K} {id : Uuid}
    (h : Calls cfg tag t (.insertAction row)) (hrow : outcomeOf id row = true) :
    (requestLane K cfg).handles id tag = true ∧ Unrecorded t := by
  simp only [outcomeOf, Bool.and_eq_true, decide_eq_true_eq] at hrow
  obtain ⟨⟨hparent, hne⟩, hne'⟩ := hrow
  have hapi : ¬ (row.result = .dispatched ∨ row.result = .dispatchFailed) := by
    rintro (hres | hres)
    · exact hne hres
    · exact hne' hres
  cases inserted_by h with
  | decision hd => cases hparent
  | approve hmay => exact absurd (row_of_api hmay).1 hapi
  | rollback hmay => exact absurd (row_of_api hmay).1 hapi
  | @execute m req _ _ _ _ _ hp ha =>
      refine ⟨?_, .skip rfl (.skip rfl ha.unrecorded)⟩
      have hid : m.actionId = some req.decisionId := (Executor.parseRequest_ok hp).1
      have hsame : some req.decisionId = some id := hparent
      simpa [Lane.handles, Lane.names, requestLane, hid] using hsame

theorem decides_of_decision {tag : Tag K} {t : History K} {row : ActionRow K} {id : Uuid}
    (h : Calls cfg tag t (.insertAction row)) (hrow : decisionOn id row = true) :
    (anomalyLane K cfg).handles id tag = true ∧ Unrecorded t := by
  simp only [decisionOn, Bool.and_eq_true, decide_eq_true_eq] at hrow
  obtain ⟨hanomaly, hparent⟩ := hrow
  cases inserted_by h with
  | @decision ma _ _ _ _ _ _ _ hd =>
      refine ⟨?_, .skip rfl (.skip rfl hd.unrecorded)⟩
      have hsame : some ma.id = some id := hanomaly
      simpa [Lane.handles, Lane.names, anomalyLane] using hsame
  | approve hmay =>
      cases hmay with
      | read ho => cases ho
      | insert | fail => cases hparent
  | rollback hmay =>
      cases hmay with
      | read ho => cases ho
      | insert | fail => cases hparent
  | execute hp ha => cases hparent

/--
**No message is lost, and none is answered more often than it was sent.** Where the broker
delivers nothing again, in every state of every run: the handlers started for a remediation
request or an anomaly, and its copies in the queue, are together the copies that were sent;
these are two at most, and one unless the confirmation of the first was lost; and there are
no more outcomes of a request, or decisions about an anomaly, than handlers started for it.
-/
theorem messages_conserved
    (h : (system cfg).Run (fun c a => ownMessages c a) (World.empty K) c) (id : Uuid) :
    Tallied (requestLane K cfg) c id (outcomeOf id)
      ∧ Tallied (anomalyLane K cfg) c id (decisionOn id) :=
  ⟨tallied _ h id executes_of_outcome, tallied _ h id decides_of_decision⟩

end

/-! ## A request that is sent twice -/

namespace Scenario

/-- The confirmation of an approved request is lost, and the executor gets it twice. -/
def resent : List (SysAct ℚ) :=
  pending ++ [.start (.approve sre 1)] ++ calls 11 5 ++ [.step 11 ⟨.after .amqp, id⟩] ++
    calls 11 1 ++ [.start (.remediation 0)] ++ calls 12 9 ++ [.start (.remediation 0)] ++
    calls 13 7

end Scenario

open Scenario in
theorem messages_conserved_resent :
    ∃ c : SysConfig ℚ, c.threads.countP (fun t => (requestLane ℚ settings).handles 3 t.tag) = 2
      ∧ c.world.actionsLog.countP (outcomeOf 3) = 2
      ∧ Tallied (requestLane ℚ settings) c 3 (outcomeOf 3)
      ∧ Tallied (anomalyLane ℚ settings) c 3 (decisionOn 3) := by
  obtain ⟨c, hrun, hcheck⟩ := System.exists_run (S := system settings) (w := World.empty ℚ)
    (p := ownMessages) (l := resent)
    (q := fun c => decide (c.threads.countP
        (fun t => (requestLane ℚ settings).handles 3 t.tag) = 2)
      && decide (c.world.actionsLog.countP (outcomeOf 3) = 2)) (by decide +kernel)
  simp only [Bool.and_eq_true, decide_eq_true_eq] at hcheck
  exact ⟨c, hcheck.1, hcheck.2, messages_conserved hrun 3⟩

end HyperTrace.Proof
