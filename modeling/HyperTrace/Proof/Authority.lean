import HyperTrace.Proof.Provenance

/-!
# No patch without earned authority

The executor checks no authority: it does what the queue says. That a throttle or
a freeze was nevertheless earned is a fact about the whole path that led to it.
The path is walked backwards. A patch is sent for a request; the request was
published by the decision engine or by an approve call, each of which had written
a `dispatched` row; the row was written at the end of the decision cascade, or for
a pending row that was.

Every link is a call in somebody's transcript, so nothing here depends on what
fails, on what is delivered twice, or on what happens to the policies meanwhile.
-/

namespace HyperTrace.Proof

open HyperTrace Effect

variable {K : Type} [Scalar K]

variable {cfg : Settings} {P : SysConfig K → SysAct K → Prop} {c : SysConfig K}

/-! ## Anomalies -/

/-- The anomaly a message is about is in the table. -/
def Recorded (ma : AnomalyMessage K) (v : World K) : Prop :=
  ∃ a ∈ v.anomalies, a.id = ma.id ∧ a.service = ma.service
    ∧ a.confidence = Decision.scoreConfidence ma

theorem Recorded.mono {ma : AnomalyMessage K} {v v' : World K} (h : Recorded ma v)
    (hle : World.Le v v') : Recorded ma v' := by
  obtain ⟨a, ha, hid, hs, hc⟩ := h
  obtain ⟨a', ha', hid', hs', hc'⟩ := hle.anomalies a ha
  exact ⟨a', ha', hid'.trans hid, hs'.trans hs, hc'.trans hc⟩

/-- A published confidence is read back as it was, whichever of its two copies is read. -/
theorem scoreConfidence_message (f : Behaviour.Flag K) (id : Uuid) (now : Time) :
    Decision.scoreConfidence (f.message id now) = f.scoreConfidence := by
  unfold Decision.scoreConfidence Behaviour.Flag.message
  dsimp only
  split <;> rfl

/-- **A message is only published about an anomaly that is recorded.** -/
theorem recorded_of_flagged (h : (system cfg).Run P (World.empty K) c) {ma : AnomalyMessage K}
    (hm : Flagged c.world ma) :
    Recorded ma c.world ∧ ma.classification = some .unclassified := by
  rcases anomaly_published h hm with hm | ⟨e, pre, he, hop⟩
  · rcases hm with hm | hm <;> cases hm
  · have hcalls := calls_of_suffix h he
    rw [hop] at hcalls
    obtain ⟨m, f, id, now, t, _, hf, rfl, hatt⟩ := anomaly_published_by hcalls
    have hins := hatt.mem (List.mem_cons_self ..)
    have hpre : pre <:+ c.trace := (List.suffix_cons e pre).trans he
    obtain ⟨e', pre', x, he', _, _, hx⟩ := answered h hpre hins
    have hrow := exec_insertAnomaly (congrArg Prod.fst hx)
    rw [hx] at hrow
    refine ⟨Recorded.mono (v := e'.after) ?_ (h.le_of_mem (grows cfg) ((he'.trans hpre).subset
      (List.mem_cons_self ..))), by simp [Behaviour.Flag.message, hf.classification]⟩
    refine ⟨f.row id now, ?_, rfl, rfl, (scoreConfidence_message f id now).symm⟩
    rw [hrow]
    exact List.mem_append_right _ (List.mem_singleton_self _)

theorem recorded_of_thread (h : (system cfg).Run P (World.empty K) c) {i : Nat}
    {t : Thread (Op K) Op.Res Err (Tag K) Reply} {ma : AnomalyMessage K}
    (ht : c.threads[i]? = some t) (htag : t.tag = .anomaly ma) :
    Recorded ma c.world ∧ ma.classification = some .unclassified :=
  recorded_of_flagged h ((delivered_of_thread h ht).2 ma htag)

/-- No anomaly is ever classified as traffic growth: what qualifies is not explained by traffic. -/
theorem never_legitimate (h : (system cfg).Run P (World.empty K) c) :
    ∀ a ∈ c.world.anomalies, a.classification ≠ .legitimateTrafficGrowth := by
  refine all_anomalies h ?_ ?_
  · intro e pre row he hop hcl
    have hcalls := calls_of_suffix h he
    rw [hop] at hcalls
    obtain ⟨m, f, id, now, _, _, hf, rfl, _⟩ := anomaly_inserted_by hcalls
    rw [show (f.row id now).classification = f.classification from rfl, hf.classification] at hcl
    cases hcl
  · intro e pre id cl ev a he hop _ hcl
    have hcalls := calls_of_suffix h he
    rw [hop] at hcalls
    obtain ⟨ma, htag, _, hleg⟩ := anomaly_updated_by hcalls
    -- the detector's own verdict would have to be traffic growth
    obtain ⟨t, ht, htag'⟩ := h.tag_of_mem (he.subset (List.mem_cons_self ..))
    have hun := (recorded_of_thread h ht (htag'.trans htag)).2
    rw [hleg hcl] at hun
    cases hun

/-- Anomaly ids are a key. -/
theorem anomaly_ids_nodup (h : (system cfg).Run P (World.empty K) c) :
    (c.world.anomalies.map AnomalyRow.id).Nodup := by
  refine h.keeps (I := fun v _ => (v.anomalies.map AnomalyRow.id).Nodup) List.nodup_nil ?_ ?_ ?_
  · intro c x w' tag p hst ih
    rw [(start_starts hst).1.anomalies]
    exact ih
  · intro c i x tag o k _ _ _ _ ih
    dsimp only [system]
    rcases (exec_changes c.world o x).anomalies with h | ⟨row, _, hnew, h⟩ | ⟨id, cl, ev, _, h⟩
    · rwa [h]
    -- the insert is only admitted when the id is new
    · rw [h, List.map_append, List.map_singleton, ← List.concat_eq_append]
      refine List.Nodup.concat (fun hid => ?_) ih
      obtain ⟨r, hr, hrid⟩ := List.mem_map.mp hid
      exact hnew r hr hrid
    -- an update changes classification and evidence, never an id
    · have hids : (c.world.updateAnomaly id cl ev).anomalies.map AnomalyRow.id
          = c.world.anomalies.map AnomalyRow.id := by
        simp only [World.updateAnomaly, List.map_map]
        refine List.map_congr_left fun r _ => ?_
        simp only [Function.comp_apply]
        split <;> rfl
      rw [h, hids]
      exact ih
  · intro c v ih
    cases v <;> exact ih

theorem anomaly_unique (h : (system cfg).Run P (World.empty K) c) {a b : AnomalyRow K}
    (ha : a ∈ c.world.anomalies) (hb : b ∈ c.world.anomalies) (hid : a.id = b.id) : a = b :=
  List.inj_on_of_nodup_map (anomaly_ids_nodup h) ha hb hid

theorem find_anomaly (h : (system cfg).Run P (World.empty K) c) {a : AnomalyRow K} {id : Uuid}
    (ha : a ∈ c.world.anomalies) (hid : a.id = id) :
    c.world.anomalies.find? (fun r => r.id = id) = some a := by
  cases hf : c.world.anomalies.find? (fun r => r.id = id) with
  | none =>
      have := List.find?_eq_none.mp hf a ha
      simp [hid] at this
  | some b =>
      have hb : b.id = id := by simpa using List.find?_some hf
      rw [anomaly_unique h (List.mem_of_find?_eq_some hf) ha (hb.trans hid.symm)]

/-! ## Decisions -/

/-- The policy matches, and none of the rows that match has a smaller priority number. -/
structure LeastMatch (cl : AnomalyClassification) (service : String) (cost confidence : K)
    (rows : List (PolicyRow K)) (policy : PolicyRow K) : Prop where
  mem : policy ∈ rows
  isMatch : Decision.policyMatches policy.ruleDsl cl.value service cost confidence = .ok true
  least : ∀ q ∈ rows, Decision.policyMatches q.ruleDsl cl.value service cost confidence = .ok true →
    policy.priority ≤ q.priority

/-- The first match in rows ordered by priority is a least one. -/
theorem leastMatch_of_firstMatch {cl : AnomalyClassification} {service : String}
    {cost confidence : K} {rows : List (PolicyRow K)} {policy : PolicyRow K}
    (h : Decision.firstMatch cl.value service cost confidence rows = .ok (some policy))
    (hsorted : rows.Pairwise fun a b => a.priority ≤ b.priority) :
    LeastMatch cl service cost confidence rows policy := by
  obtain ⟨front, back, rfl, hm, hfront⟩ := Decision.firstMatch_spec h
  refine ⟨List.mem_append_right _ (List.mem_cons_self ..), hm, ?_⟩
  intro q hq hqm
  rcases List.mem_append.mp hq with hq | hq
  · rw [hfront q hq] at hqm
    cases hqm
  · rcases List.mem_cons.mp hq with rfl | hq
    · exact le_refl _
    · exact (List.pairwise_cons.mp (List.pairwise_append.mp hsorted).2.1).1 q hq

/-- **The row was written by the decision engine, about this anomaly, under this policy.** -/
structure Decided (cfg : Settings) (c : SysConfig K) (row : ActionRow K) (a : AnomalyRow K)
    (policy : PolicyRow K) : Prop where
  recorded : a ∈ c.world.anomalies
  anomaly : row.anomalyId = some a.id
  cause : a.classification ≠ .legitimateTrafficGrowth
  unprotected : Decision.isProtected a.service cfg.decision.protectedNamespacePrefixes = false
  asks : policy.action = row.actionType
  /-- One thread settled the class, read the policies and, going by both, wrote the row. -/
  written : ∃ ins sel upd ma cl ev rows, ins ∈ c.trace ∧ sel ∈ c.trace ∧ upd ∈ c.trace
    ∧ ins.tid = sel.tid ∧ upd.tid = sel.tid
    ∧ ins.tag = .anomaly ma ∧ ma.id = a.id ∧ ins.op = .insertAction row
    ∧ upd.call = ⟨.updateAnomaly a.id cl ev, .ok ()⟩
    ∧ sel.call = ⟨.selectPolicies, .ok rows⟩ ∧ rows.Perm sel.before.policies
    ∧ LeastMatch cl a.service (ma.evidence.value.getD 0) a.confidence rows policy

/-- The thresholds, as numbers. -/
theorem confidence_of_authority {x : K} :
    (Decision.authorityFor x = .autonomous → 0.85 ≤ x)
      ∧ (Decision.authorityFor x ≠ .alertOnly → 0.60 ≤ x) := by
  unfold Decision.authorityFor
  constructor
  · intro h
    split at h
    · assumption
    · split at h <;> cases h
  · intro h
    split at h
    · rename_i h85
      exact le_trans (by norm_num) (show (0.85 : K) ≤ x from h85)
    · split at h
      · assumption
      · exact absurd rfl h

/-- **What stands behind a dispatch or a pending approval of the decision engine.** -/
theorem decided_of_insert (h : (system cfg).Run P (World.empty K) c) {e : SysEvent K}
    {pre : List (SysEvent K)} (he : e :: pre <:+ c.trace) {ma : AnomalyMessage K}
    (htag : e.tag = .anomaly ma) {row : ActionRow K} (hop : e.op = .insertAction row)
    (hres : row.result = .dispatched ∨ row.result = .pendingApproval) :
    ∃ a policy, a.id = ma.id ∧ a.service = ma.service ∧ Decided cfg c row a policy
      ∧ 0.60 ≤ a.confidence
      ∧ (row.result = .dispatched →
          0.85 ≤ a.confidence ∧ Decision.requiresApproval policy.ruleDsl = false) := by
  have hcalls := calls_of_suffix h he
  rw [htag, hop] at hcalls
  generalize htr : hist pre e.tid = t at hcalls
  cases inserted_by hcalls with
  | @decision _ h₀ policy action res mode id now hd =>
      obtain ⟨hidle, hcl, hmatch, hparse, hv⟩ := hd
      obtain ⟨t', ht', htag'⟩ := h.tag_of_mem (he.subset (List.mem_cons_self ..))
      obtain ⟨⟨a, ha, hid, hs, hc⟩, _⟩ := recorded_of_thread h ht' (htag'.trans htag)
      obtain ⟨hv₁, _⟩ := Prod.mk.inj hv
      -- either result means that both gates were passed
      have hgate : Decision.isProtected ma.service cfg.decision.protectedNamespacePrefixes = false
          ∧ Decision.authorityFor (Decision.scoreConfidence ma) ≠ .alertOnly := by
        rcases hres with hres | hres
        · obtain ⟨hp, _, hA, _⟩ := Decision.verdict_dispatched (hv₁.symm.trans hres)
          exact ⟨hp, by simp [hA]⟩
        · obtain ⟨hp, _, hA⟩ := Decision.verdict_pendingApproval (hv₁.symm.trans hres)
          exact ⟨hp, hA⟩
      -- the policies were read when the thread asked for them, not when it wrote
      have hpre : pre <:+ c.trace := (List.suffix_cons e pre).trans he
      obtain ⟨sel, pre', x, hsel, hi, hcall, hrest, hx⟩ :=
        answered_after h hpre (l := [_, _]) htr
      obtain ⟨hperm, hsorted⟩ := exec_selectPolicies (congrArg Prod.fst hx)
      have hpre' : pre' <:+ c.trace := (List.suffix_cons sel pre').trans (hsel.trans hpre)
      -- and it had settled the class before that
      obtain ⟨upd, pre'', _, hupd, hu, hucall, _⟩ := answered_after h hpre' (l := []) hrest
      refine ⟨a, policy, hid, hs, ⟨ha, congrArg some hid.symm, never_legitimate h a ha,
        hs ▸ hgate.1, (RemediationAction.value_of_parse hparse).symm, ?_⟩,
        hc ▸ confidence_of_authority.2 hgate.2, ?_⟩
      · have hleast := leastMatch_of_firstMatch hmatch hsorted
        rw [← hs, ← hc] at hleast
        rw [← hid] at hucall
        exact ⟨e, sel, upd, ma, _, _, _, he.subset (List.mem_cons_self ..),
          (hsel.trans hpre).subset (List.mem_cons_self ..),
          (hupd.trans hpre').subset (List.mem_cons_self ..), hi.symm, hu.trans hi.symm, htag,
          hid.symm, hop, hucall, hcall, hperm, hleast⟩
      · intro hdis
        obtain ⟨_, _, hA, hreq, _⟩ := Decision.verdict_dispatched (hv₁.symm.trans hdis)
        exact ⟨hc ▸ confidence_of_authority.1 hA, hreq⟩

/-! ## The path back from a patch -/

/-- What a `dispatched` row about the anomaly `a` may rest on. -/
inductive Earned (cfg : Settings) (c : SysConfig K) (D : ActionRow K) (a : AnomalyRow K) : Prop where
  /-- The decision engine acted on its own. -/
  | autonomous (policy : PolicyRow K) : Decided cfg c D a policy → 0.85 ≤ a.confidence →
      Decision.requiresApproval policy.ruleDsl = false → Earned cfg c D a
  /-- Somebody with the role approved what the decision engine had left pending. -/
  | approved (user : Api.User) (ins : SysEvent K) (p : ActionRow K) (policy : PolicyRow K) :
      ins ∈ c.trace → ins.tag = .approve user a.id → ins.op = .insertAction D →
      user.role = "sre" → p ∈ ins.before.actionsLog → D.parentActionId = some p.id →
      p.result = .pendingApproval → p.anomalyId = D.anomalyId → p.actionType = D.actionType →
      Decided cfg c p a policy → 0.60 ≤ a.confidence → Earned cfg c D a

/-- The patch is addressed to the workload of the service. -/
inductive PatchOf (service : String) (h : History K) : String → Op K → Prop where
  | throttle {ns name container : String} : Executor.splitService service = (ns, name) →
      PatchOf service h RemediationAction.throttle.value
        (.patchDeployment name ns container (.str Executor.throttleCpuLimit))
  | freeze {ns name : String} {hpas : List Hpa} {hpa : Hpa} {n : Nat} :
      Executor.splitService service = (ns, name) → ⟨.listHpas ns, .ok hpas⟩ ∈ h →
      hpa ∈ hpas → hpa.target = name →
      PatchOf service h RemediationAction.freezeScaling.value (.patchHpa hpa.name ns (.int n))

omit [Scalar K] in
theorem patchOf_of_contains {ecfg : Executor.Config} {req : Executor.Request} {h : History K}
    {o : Op K} {ref : Json K} (hc : Executor.Contains ecfg req h o ref) :
    PatchOf req.service h req.action o := by
  cases hc with
  | throttle hact _ _ hsplit => exact hact ▸ .throttle hsplit
  | freeze hact _ _ hsplit hfind =>
      refine hact ▸ .freeze hsplit (List.mem_cons_self ..) (List.mem_of_find?_eq_some hfind) ?_
      simpa using List.find?_some hfind

/-- Only the decision engine leaves anything pending. -/
theorem pending_inserted (h : (system cfg).Run P (World.empty K) c) {p : ActionRow K}
    (hp : p ∈ c.world.actionsLog) (hres : p.result = .pendingApproval) :
    ∃ e pre ma, e :: pre <:+ c.trace ∧ e.tag = .anomaly ma ∧ e.op = .insertAction p
      ∧ p.anomalyId = some ma.id ∧ ∃ action, p.actionType = RemediationAction.value action := by
  rcases row_inserted h hp with hw | ⟨e, pre, he, hop, _⟩
  · cases hw
  · have hcalls := calls_of_suffix h he
    rw [hop] at hcalls
    generalize htag : e.tag = tag at hcalls
    generalize hist pre e.tid = t at hcalls
    -- neither the API nor the executor writes this result
    cases inserted_by hcalls with
    | decision hd => exact ⟨e, pre, _, he, htag, hop, rfl, _, rfl⟩
    | approve hmay => rcases (row_of_api hmay).1 with h' | h' <;> cases hres.symm.trans h'
    | rollback hmay => rcases (row_of_api hmay).1 with h' | h' <;> cases hres.symm.trans h'
    | execute _ ha => cases ha <;> cases hres

/-- **What stands behind a dispatch of an approve call.** -/
theorem approved_of_insert (h : (system cfg).Run P (World.empty K) c) {ins : SysEvent K}
    {pre : List (SysEvent K)} (hins : ins :: pre <:+ c.trace) {user : Api.User} {anomalyId : Uuid}
    (htag : ins.tag = .approve user anomalyId) {D : ActionRow K}
    (hop : ins.op = .insertAction D) (hres : D.result = .dispatched) :
    ∃ a ∈ c.world.anomalies, D.target = some a.service ∧ D.anomalyId = some a.id
      ∧ Earned cfg c D a := by
  have hcalls := calls_of_suffix h hins
  rw [htag, hop] at hcalls
  have hpre : pre <:+ c.trace := (List.suffix_cons ins pre).trans hins
  generalize htr : hist pre ins.tid = t at hcalls
  cases inserted_by hcalls with
  | approve hmay =>
      cases hmay with
      | read ho => cases ho
      | fail => cases hres
      | @insert h₀ d id now hd =>
          obtain ⟨p, service, hsre⟩ := hd
          obtain ⟨es, pres, xs, hes, hsi, _, hrest, hxs⟩ := answered_after h hpre (l := [_, _]) htr
          obtain ⟨er, prer, xr, her, _, _, _, hxr⟩ :=
            answered_after h ((List.suffix_cons es pres).trans (hes.trans hpre)) (l := []) hrest
          obtain ⟨hplog, hpid, hpres⟩ := exec_latestAction (congrArg Prod.fst hxr)
          have hermem : er ∈ pres := her.subset (List.mem_cons_self ..)
          have hlog : p ∈ es.before.actionsLog :=
            (h.le_of_suffix (grows cfg) (hes.trans hpre) hermem).actionsLog.subset
              ((changes_of_suffix h (her.trans ((List.suffix_cons es pres).trans
                (hes.trans hpre)))).le.actionsLog.subset hplog)
          have hlog' : p ∈ ins.before.actionsLog := by
            have hle := h.le_of_suffix (grows cfg) hins (hes.subset (List.mem_cons_self ..))
            exact hle.actionsLog.subset
              ((changes_of_suffix h (hes.trans hpre)).le.actionsLog.subset hlog)
          -- the pending row was written before the service was looked up
          obtain ⟨cs, _, _, hrs, _, hws, htrs, _⟩ := h.origin (hes.trans hpre)
          rw [← hws] at hlog hxs
          obtain ⟨ep, prep, ma, hep, heptag, hepop, hpma, _⟩ := pending_inserted hrs hlog hpres
          have hma : ma.id = anomalyId := by
            rw [hpma] at hpid
            exact Option.some.inj hpid
          have hepc : ep :: prep <:+ c.trace :=
            hep.trans (htrs ▸ (List.suffix_cons es pres).trans (hes.trans hpre))
          obtain ⟨a, policy, haid, has, hdec, h60, _⟩ :=
            decided_of_insert h hepc heptag hepop (Or.inr hpres)
          have hservice : service = some a.service := by
            obtain ⟨tp, htp, htptag⟩ := hrs.tag_of_mem (hep.subset (List.mem_cons_self ..))
            obtain ⟨⟨b, hb, hbid, hbs, _⟩, _⟩ := recorded_of_thread hrs htp (htptag.trans heptag)
            rw [exec_anomalyService (congrArg Prod.fst hxs), find_anomaly hrs hb (hbid.trans hma),
              has, ← hbs]
            rfl
          refine ⟨a, hdec.recorded, ?_, ?_, .approved user ins p policy
            (hins.subset (List.mem_cons_self ..)) ?_ hop hsre hlog' rfl hpres ?_ rfl hdec h60⟩
          · rw [hservice]; rfl
          · rw [haid, hma]; rfl
          · rw [haid, hma]; exact htag
          · rw [hpid]; rfl

/-- **Behind every request to throttle or freeze stands a row that earned it.** -/
theorem earned_of_published (h : (system cfg).Run P (World.empty K) c) {e : SysEvent K}
    {pre : List (SysEvent K)} (he : e :: pre <:+ c.trace) {m : RemediationMessage}
    (hop : e.op = .basicPublish (.remediation m)) (hact : m.action ≠ some "rollback") :
    ∃ a ∈ c.world.anomalies, ∃ D ∈ e.before.actionsLog, m.actionId = some D.id
      ∧ m.service = some a.service ∧ m.action = some D.actionType ∧ D.result = .dispatched
      ∧ D.anomalyId = some a.id ∧ Earned cfg c D a := by
  have hcalls := calls_of_suffix h he
  rw [hop] at hcalls
  generalize htag : e.tag = tag at hcalls
  cases published_by hcalls with
  -- its own dispatch: the row stands in the transcript before the publish
  | @decision ma h₀ t policy action mode id now hd hm hatt =>
      obtain ⟨hlog, ins, pre', hins, hitag, hiop⟩ :=
        row_of_transcript h he (hatt.mem (List.mem_cons_self ..))
      obtain ⟨a, policy', hid, hs, hdec, _, hdis⟩ :=
        decided_of_insert h hins (hitag.trans htag) hiop (Or.inl rfl)
      obtain ⟨h85, hreq⟩ := hdis rfl
      refine ⟨a, hdec.recorded, _, hlog, ?_, ?_, ?_, rfl, hdec.anomaly, .autonomous _ hdec h85 hreq⟩
      · rw [hm]; rfl
      · rw [hm, hs]; rfl
      · rw [hm]; rfl
  | @approve user anomalyId h₀ t d id now happ hm hatt =>
      obtain ⟨hlog, ins, pre', hins, hitag, hiop⟩ :=
        row_of_transcript h he (hatt.mem (List.mem_cons_self ..))
      obtain ⟨a, ha, htarget, hid, hearned⟩ :=
        approved_of_insert h hins (hitag.trans htag) hiop rfl
      obtain ⟨p, service, _⟩ := happ
      refine ⟨a, ha, _, hlog, ?_, ?_, ?_, rfl, hid, hearned⟩
      · rw [hm]; rfl
      · rw [hm, ← htarget]; rfl
      · rw [hm]; rfl
  -- a rollback publishes a request to roll back, which is excluded
  | @rollback user anomalyId h₀ t d id now hr hm hatt =>
      obtain ⟨row, _⟩ := hr
      rw [hm] at hact
      exact absurd rfl hact

/--
**No throttle or freeze without earned authority.**

However the run went, whatever failed and whatever was delivered again: a patch
that is not a rollback goes to the workload of a recorded anomaly, and was asked
for by a `dispatched` row, already in the ledger, that had earned it.
-/
theorem patch_earned (h : (system cfg).Run (fun c a => noForgery c a) (World.empty K) c)
    {e : SysEvent K} {pre : List (SysEvent K)} (he : e :: pre <:+ c.trace) {m : RemediationMessage}
    (htag : e.tag = .execute m) (hact : m.action ≠ some "rollback")
    (hpatch : isPatch e.op = true) :
    ∃ a ∈ c.world.anomalies, ∃ D ∈ e.before.actionsLog, m.actionId = some D.id
      ∧ D.result = .dispatched ∧ D.anomalyId = some a.id
      ∧ PatchOf a.service (hist pre e.tid) D.actionType e.op ∧ Earned cfg c D a := by
  obtain ⟨m', req, htag', hparse, hcase⟩ := patched_by hpatch (calls_of_suffix h he)
  obtain rfl : m = m' := by rw [htag] at htag'; cases htag'; rfl
  obtain ⟨c₀, _, _, hr, _, hw, htr, hth, _⟩ := h.origin he
  rcases request_published (fun _ _ hp => hp) hr ((delivered_of_thread hr hth).1 m htag) with
    hm | ⟨e₁, pre₁, he₁, hop⟩
  · rcases hm with hm | hm <;> cases hm
  · have hpre : e₁ :: pre₁ <:+ pre := htr ▸ he₁
    have hc : e₁ :: pre₁ <:+ c.trace := hpre.trans ((List.suffix_cons e pre).trans he)
    obtain ⟨a, ha, D, hD, hid, hservice, haction, hres, hanomaly, hearned⟩ :=
      earned_of_published h hc hop hact
    have hle := ((changes_of_suffix h hc).le).trans
      (h.le_of_suffix (grows cfg) he (hpre.subset (List.mem_cons_self ..)))
    refine ⟨a, ha, D, hle.actionsLog.subset hD, hid, hres, hanomaly, ?_, hearned⟩
    obtain ⟨_, hs, ha', _⟩ := Executor.parseRequest_ok hparse
    rcases hcase with ⟨ref, hcon⟩ | ⟨row, ⟨⟨hroll, _⟩, _⟩⟩
    · have hs' : req.service = a.service := Option.some.inj (hs.symm.trans hservice)
      have ha'' : req.action = D.actionType := Option.some.inj (ha'.symm.trans haction)
      exact hs' ▸ ha'' ▸ patchOf_of_contains hcon
    · rw [hroll] at ha'
      exact absurd ha' hact

/-! ## A run in which one is earned -/

namespace Scenario

def settings : Settings where
  decision :=
    { protectedNamespacePrefixes := ["kube-system"]
      recentDeploymentWindowMinutes := 15
      securitySignalWindowMinutes := 10 }
  executor :=
    { protectedNamespacePrefixes := ["kube-system"]
      maxActionsPerWindow := 10
      rateLimitWindowMinutes := 5
      maxActionsPerService := 1
      serviceRateLimitWindowMinutes := 15
      rollbackWindowMinutes := 60 }

def sre : Api.User := ⟨"sre", "sre"⟩

def victim : String := "shop/victim"

/-- One Deployment, limited to one core. -/
def cluster : Cluster :=
  Cluster.empty.setDeployment "shop" "victim"
    { first := ⟨"app", some ⟨some fun k => if k = "cpu" then some "1" else none⟩⟩
      rest := []
      names_nodup := by simp }

/-- The thread of the given number makes `n` calls, none of which fails. -/
def calls (tid n : Nat) : List (SysAct ℚ) := List.replicate n (.step tid .ok)

def cost (value : ℚ) : SysAct ℚ :=
  .start (.cost
    { timestamp := 0
      service := victim
      resource := ⟨"c", "shop", "n", none, none, none⟩
      costPerHour := value
      cpuCores := none })

def throttlePolicy : Api.PolicyIn ℚ := ⟨"default", [], "*", .throttle, 0⟩

/-- Five readings to learn from and three that stand out; the third flags an anomaly. -/
def readings : List (SysAct ℚ) :=
  [cost 10] ++ calls 2 8 ++ [cost 11] ++ calls 3 8 ++ [cost 10] ++ calls 4 8 ++ [cost 11] ++
    calls 5 8 ++ [cost 10] ++ calls 6 8 ++ [cost 100] ++ calls 7 8 ++ [cost 100] ++ calls 8 8 ++
    [cost 100] ++ calls 9 12

/-- From nothing to a throttle that waits for approval. -/
def pending : List (SysAct ℚ) :=
  [.env (.changeCluster cluster), .start (.createPolicy sre throttlePolicy)] ++ calls 0 2 ++
    [.start (.traffic ⟨0, victim, 50⟩)] ++ calls 1 5 ++ readings ++ [.start (.anomaly 0)] ++
    calls 10 8

/-- Somebody approves it. -/
def approved : List (SysAct ℚ) := pending ++ [.start (.approve sre 1)] ++ calls 11 6

/-- And the executor patches the Deployment. -/
def throttled : List (SysAct ℚ) := approved ++ [.start (.remediation 0)] ++ calls 12 5

/-- The last thing that happened is a patch for a request to throttle. -/
def patches (c : SysConfig ℚ) : Bool :=
  match c.trace with
  | ⟨_, .execute m, op, _, _, _⟩ :: _ => isPatch op && m.action = some "throttle"
  | _ => false

theorem of_patches {c : SysConfig ℚ} (h : patches c = true) :
    ∃ e pre m, c.trace = e :: pre ∧ e.tag = .execute m ∧ m.action = some "throttle"
      ∧ isPatch e.op = true := by
  unfold patches at h
  split at h
  · rename_i tid m op res before after pre htr
    simp only [Bool.and_eq_true, decide_eq_true_eq] at h
    exact ⟨_, _, m, htr, rfl, h.2, h.1⟩
  · cases h

theorem throttled_run : ∃ c, (system settings).Run (fun c a => noForgery c a) (World.empty ℚ) c
    ∧ patches c = true :=
  System.exists_run (l := throttled) (by decide +kernel)

end Scenario

open Scenario in
/-- A patch approved by hand: its confidence was 0.701. -/
theorem patch_earned_throttled :
    ∃ (c : SysConfig ℚ) (e : SysEvent ℚ) (pre : List (SysEvent ℚ)), c.trace = e :: pre
      ∧ isPatch e.op = true
      ∧ ∃ a ∈ c.world.anomalies, ∃ D ∈ e.before.actionsLog, D.anomalyId = some a.id
        ∧ PatchOf a.service (hist pre e.tid) D.actionType e.op ∧ Earned settings c D a := by
  obtain ⟨c, hrun, hpatches⟩ := throttled_run
  obtain ⟨e, pre, m, htr, htag, hact, hpatch⟩ := of_patches hpatches
  have he : e :: pre <:+ c.trace := htr ▸ List.suffix_refl _
  have hroll : m.action ≠ some "rollback" := by
    rw [hact]
    decide
  obtain ⟨a, ha, D, hD, _, _, hid, hof, hearned⟩ :=
    patch_earned hrun he htag hroll hpatch
  exact ⟨c, e, pre, htr, hpatch, a, ha, D, hD, hid, hof, hearned⟩

end HyperTrace.Proof
