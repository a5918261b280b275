import HyperTrace.Proof.Writes

/-!
# Dispatched, and sent

A `dispatched` row is written before its request is published, and can no longer
be changed when that fails. The API answers a failed publish with a
`dispatch_failed` row. The decision engine does not: what its publish raises goes
to the consumer, and the row stays. With the database available that is the only
way in which the ledger comes to show work that was never sent.
-/

namespace HyperTrace.Proof

open HyperTrace Effect

variable {K : Type}

/-- The broker takes what the decision engine publishes, at the latest on the second attempt. -/
def decisionPublishes (c : SysConfig K) : SysAct K → Bool
  | .step i x =>
      match c.threads[i]? with
      | some ⟨.anomaly _, .op (.basicPublish _) _⟩ =>
          x.fault = .none ||
            (!(hist c.trace i).any fun call => isPublish call.op) &&
              (x.fault = .before .amqp || x.fault = .after .amqp)
      | _ => true
  | _ => true

/-- The request of the row was published. -/
def Sent (c : SysConfig K) (D : ActionRow K) : Prop :=
  ∃ e ∈ c.trace, ∃ m, e.call = ⟨.basicPublish (.remediation m), .ok ()⟩ ∧ m.actionId = some D.id

/-- The ledger says that the row was not sent. -/
def Withdrawn (c : SysConfig K) (D : ActionRow K) : Prop :=
  ∃ F ∈ c.world.actionsLog, F.result = .dispatchFailed ∧ F.parentActionId = some D.id

/-- A publish writes nothing to the ledger. -/
theorem mem_of_published {p : Payload K} {h t : History K} {r : Except Err Unit}
    (hp : Published p h t r) {row : ActionRow K} {res : Except Err Unit}
    (hc : (⟨.insertAction row, res⟩ : SysCall K) ∈ t) :
    (⟨.insertAction row, res⟩ : SysCall K) ∈ h := by
  cases hp with
  | first => exact mem_of_mem_cons_ne hc (by rintro ⟨⟩)
  | refused => exact mem_of_mem_cons_ne hc (by rintro ⟨⟩)
  | second => exact mem_of_mem_cons_ne (mem_of_mem_cons_ne hc (by rintro ⟨⟩)) (by rintro ⟨⟩)

section

variable [Scalar K] {cfg : Settings} {c : SysConfig K}
variable {P : SysConfig K → SysAct K → Prop} {w : World K}

omit [Scalar K] in
theorem sent_of_published {i : Nat} {D : ActionRow K}
    {m : RemediationMessage}
    (hc : (⟨.basicPublish (.remediation m), .ok ()⟩ : SysCall K) ∈ hist c.trace i)
    (hm : m.actionId = some D.id) : Sent c D := by
  obtain ⟨e, he, _, hcall⟩ := mem_hist.mp hc
  exact ⟨e, he, m, hcall, hm⟩

/-! ## The decision engine -/

/-- A publish of the decision engine succeeds, or is to be tried once more. -/
theorem decision_publish (hP : ∀ c a, P c a → decisionPublishes c a = true)
    (h : (system cfg).Run P w c) {e : SysEvent K} {pre : List (SysEvent K)}
    (he : e :: pre <:+ c.trace) {ma : AnomalyMessage K} (htag : e.tag = .anomaly ma)
    {p : Payload K} {r : Except Err Unit} (hcall : e.call = ⟨.basicPublish p, r⟩) :
    r = .ok () ∨ r = .error .amqp ∧ ∀ call ∈ hist pre e.tid, isPublish call.op = false := by
  obtain ⟨tid, tag, op, res, before, after⟩ := e
  cases hcall
  dsimp only at htag
  subst htag
  obtain ⟨c₀, x, k, hr, hp, hworld, htr, ht, hx⟩ := h.origin he
  dsimp only at ht hx
  have hres : (exec before (.basicPublish p) x).1 = res := congrArg Prod.fst hx
  have hpub := hP _ _ hp
  simp only [decisionPublishes, ht, Bool.or_eq_true, Bool.and_eq_true, decide_eq_true_eq] at hpub
  -- the two faults that are allowed: none, and one that the retry absorbs
  rcases hpub with hf | ⟨hfirst, hf⟩
  · left
    rw [← hres]
    simp only [exec, faulty, hf]
    rfl
  · right
    refine ⟨?_, ?_⟩
    · rw [← hres]
      rcases hf with hf | hf <;> simp only [exec, faulty, hf] <;> rfl
    · simpa [htr] using hfirst

/-- **Where the broker takes what the decision engine publishes, what it dispatched was sent.** -/
theorem decision_sent (hP : ∀ c a, P c a → decisionPublishes c a = true)
    (h : (system cfg).Run P w c) {i : Nat} {ma : AnomalyMessage K} {p : Py K Reply}
    (ht : c.threads[i]? = some ⟨.anomaly ma, p⟩) (hdone : p.isDone = true) {D : ActionRow K}
    (hD : (⟨.insertAction D, .ok ()⟩ : SysCall K) ∈ hist c.trace i) (hres : D.result = .dispatched) :
    Sent c D := by
  obtain ⟨r, hends⟩ := (thread_obeys h ht).of_isDone hdone
  generalize hh : hist c.trace i = t at hends hD
  obtain @⟨t, r', ack, res, hends⟩ := hends
  have hD' : (⟨.insertAction D, .ok ()⟩ : SysCall K) ∈ t :=
    mem_of_mem_cons_ne hD (by rintro ⟨⟩)
  -- a publish that failed is the first one
  have hpublish : ∀ {l t' : History K} {q : Payload K} {s : Except Err Unit},
      hist c.trace i = l ++ ⟨.basicPublish q, s⟩ :: t' →
      s = .ok () ∨ s = .error .amqp ∧ ∀ call ∈ t', isPublish call.op = false := by
    intro l t' q s hsplit
    obtain ⟨e, pre, he, hei, hcall, hpre⟩ := hist_split hsplit
    obtain ⟨t'', ht', htag⟩ := h.tag_of_mem (he.subset (List.mem_cons_self ..))
    rw [hei, ht] at ht'
    cases ht'
    rw [← hpre, ← hei]
    exact decision_publish hP h he htag.symm hcall
  cases hends with
  | undispatched r' hun => cases hun _ hD' D rfl hres
  | @dispatched t₀ _ policy action mode id now r' hd hpub =>
      have hrow : D = Decision.decisionRow id ma.id action now .dispatched ma.service mode := by
        rcases List.mem_cons.mp (mem_of_published hpub hD') with heq | hmem
        · cases heq
          rfl
        · have hmem' : (⟨.insertAction D, .ok ()⟩ : SysCall K) ∈ t₀ :=
            mem_of_stamped hmem rfl rfl rfl
          exact absurd rfl (hd.unrecorded _ hmem' D)
      have hid : (Decision.remediationRequest id ma.id ma.service action.value).actionId
          = some D.id := by rw [hrow]; rfl
      have hsent : ∀ {u : SysCall K} {t' : History K} {m : RemediationMessage},
          (⟨.basicPublish (.remediation m), .ok ()⟩ : SysCall K)
            ∈ u :: ⟨.basicPublish (.remediation m), .ok ()⟩ :: t' :=
        List.mem_cons_of_mem _ (List.mem_cons_self ..)
      cases hpub with
      | first => exact sent_of_published (i := i) (hh ▸ hsent) hid
      | refused hne =>
          rcases hpublish (l := [_]) hh with hok | ⟨hamqp, _⟩
          · cases hok
          · exact absurd (Except.error.inj hamqp) hne
      -- the second attempt follows a first, so it succeeded
      | second r' =>
          rcases hpublish (l := [_]) hh with rfl | ⟨_, hfirst⟩
          · exact sent_of_published (i := i) (hh ▸ hsent) hid
          · cases hfirst _ (List.mem_cons_self ..)

/-! ## The API -/

/-- What both endpoints have in common, as far as their row and its request go. -/
structure Dispatching (reads : History K → Api.Dispatch → Prop) : Prop where
  unrecorded : ∀ {h d}, reads h d → Unrecorded h
  request : ∀ {h d}, reads h d → ∀ id, (d.request id).actionId = some id

omit [Scalar K] in
theorem approves_dispatching (user : Api.User) (a : Uuid) :
    Dispatching (K := K) (Api.Approves user a) where
  unrecorded hr := by
    cases hr
    exact .skip rfl (.skip rfl .nil)
  request hr id := by
    cases hr
    rfl

omit [Scalar K] in
theorem reverses_dispatching (user : Api.User) (a : Uuid) :
    Dispatching (K := K) (Api.Reverses user a) where
  unrecorded hr := by
    cases hr
    exact .skip rfl .nil
  request hr id := by
    cases hr
    rfl

omit [Scalar K] in
/-- The one `dispatched` row of a request to the API. -/
theorem row_of_api_dispatch {reads : History K → Api.Dispatch → Prop} (hd : Dispatching reads)
    {t t₀ : History K} {d : Api.Dispatch} {id : Uuid} {now : Time} {p : Payload K}
    {r : Except Err Unit} (hreads : reads t₀ d) (hpub : Published p (Api.dispatched t₀ d id now) t r)
    {D : ActionRow K} (hD : (⟨.insertAction D, .ok ()⟩ : SysCall K) ∈ t) : D = d.row id now := by
  rcases List.mem_cons.mp (mem_of_published hpub hD) with heq | hmem
  · cases heq
    rfl
  · have hmem' : (⟨.insertAction D, .ok ()⟩ : SysCall K) ∈ t₀ :=
      mem_of_stamped hmem rfl rfl rfl
    exact absurd rfl (hd.unrecorded hreads _ hmem' D)

/-- A `dispatch_failed` row is never refused. -/
theorem failed_answered (hup : ∀ c a, P c a → databaseUp c a = true)
    (h : (system cfg).Run P w c) (hw : w.actionsLog = []) {e : SysEvent K}
    {pre : List (SysEvent K)} (he : e :: pre <:+ c.trace)
    {t₀ t : History K} {d : Api.Dispatch} {id id' : Uuid} {now now' : Time} {p : Payload K}
    {r : Except Err Unit} (hpub : Published p (Api.dispatched t₀ d id now) t r)
    (hpre : hist pre e.tid = ⟨.now, .ok now'⟩ :: ⟨.uuid4, .ok id'⟩ :: t)
    (hop : e.op = .insertAction (d.failedRow id id' now')) :
    e.call = ⟨.insertAction (d.failedRow id id' now'), .ok ()⟩ := by
  obtain ⟨c₀, _, _, hr, _, hworld, htr, _⟩ := h.origin he
  have hrow : d.row id now ∈ c₀.world.actionsLog := by
    refine row_of_answered hr (i := e.tid) (a := ()) ?_
    rw [htr, hpre]
    refine List.mem_cons_of_mem _ (List.mem_cons_of_mem _ ?_)
    cases hpub with
    | second => exact List.mem_cons_of_mem _ (List.mem_cons_of_mem _ (List.mem_cons_self ..))
    | _ => exact List.mem_cons_of_mem _ (List.mem_cons_self ..)
  refine insert_answered hup h hw he hop (hworld ▸ ⟨fun a ha => ?_, fun q hq => ?_, ?_, rfl⟩)
  · exact anomaly_of_row hr hw hrow ha
  · exact ⟨_, hrow, Option.some.inj hq⟩
  · intro q hx
    cases hx

/-- **What the API dispatched was sent, or is withdrawn.** -/
theorem api_accounted {reads : History K → Api.Dispatch → Prop} (hd : Dispatching reads)
    (hup : ∀ c a, P c a → databaseUp c a = true) (h : (system cfg).Run P w c)
    (hw : w.actionsLog = []) {i : Nat} {r : Except Err Reply}
    (hends : Api.Ends reads (hist c.trace i) r) {D : ActionRow K}
    (hD : (⟨.insertAction D, .ok ()⟩ : SysCall K) ∈ hist c.trace i) (hres : D.result = .dispatched) :
    Sent c D ∨ Withdrawn c D := by
  generalize hh : hist c.trace i = t at hends hD
  cases hends with
  | undispatched r hun => cases hun _ hD D rfl hres
  | @published t₀ _ d id now hreads hpub =>
      obtain rfl := row_of_api_dispatch hd hreads hpub hD
      have hid := hd.request hreads id
      left
      cases hpub with
      | first => exact sent_of_published (i := i) (hh ▸ List.mem_cons_self ..) hid
      | second => exact sent_of_published (i := i) (hh ▸ List.mem_cons_self ..) hid
  -- both publishes failed, and the failure was recorded
  | @failed t₀ _ d id id' now now' e e' hreads hpub =>
      right
      refine ⟨d.failedRow id id' now', row_of_answered h (i := i) (a := ())
        (hh ▸ List.mem_cons_self ..), rfl, ?_⟩
      rcases List.mem_cons.mp hD with heq | hD
      · cases heq
        cases hres
      · have hD' := mem_of_stamped hD rfl rfl rfl
        obtain rfl := row_of_api_dispatch hd hreads hpub hD'
        rfl
  -- what raises here is a database call, and the database is up
  | @raised t₀ o e hmay hbroker hkube =>
      exfalso
      obtain ⟨ev, pre, he, hei, hcall, hpre⟩ := hist_split (l := []) hh
      have hop : ev.op = o := congrArg Call.op hcall
      cases hmay with
      | read ho =>
          rcases raises_outside hup h he (by rw [hcall]; rfl) with hb | hk | ⟨row, hrow⟩ | ⟨row, hrow⟩
          · rw [hop, hbroker] at hb
            cases hb
          · rw [hop, hkube] at hk
            cases hk
          · rw [← hop, hrow] at ho
            cases ho
          · rw [← hop, hrow] at ho
            cases ho
      | @insert t' d id now hreads =>
          have hD' : (⟨.insertAction D, .ok ()⟩ : SysCall K) ∈ t' := by
            rcases List.mem_cons.mp hD with heq | hD
            · cases heq
            · exact mem_of_stamped hD rfl rfl rfl
          exact absurd rfl (hd.unrecorded hreads _ hD' D)
      | publish => cases hbroker
      | fail hreads hpub =>
          have hok := failed_answered hup h hw he hpub (hei ▸ hpre) hop
          rw [hcall] at hok
          cases hok

/-! ## Every dispatched row -/

/--
**Where the broker takes what the decision engine publishes, nothing is in flight that is not.**

The database is available, the queues and the anomalies the run starts from are
arbitrary. Once the thread that wrote a `dispatched` row has ended, its request was
published or the ledger says that it was not.
-/
theorem dispatched_accounted
    (h : (system cfg).Run (fun c a => databaseUp c a && decisionPublishes c a) w c)
    (hw : w.actionsLog = []) {D : ActionRow K} (hD : D ∈ c.world.actionsLog)
    (hres : D.result = .dispatched) :
    ∃ ins ∈ c.trace, ins.op = .insertAction D ∧ ∀ t, c.threads[ins.tid]? = some t →
      t.prog.isDone = true → Sent c D ∨ Withdrawn c D := by
  have hup : ∀ (c : SysConfig K) a, (databaseUp c a && decisionPublishes c a) = true →
      databaseUp c a = true := fun _ _ hp => (Bool.and_eq_true_iff.mp hp).1
  have hpub : ∀ (c : SysConfig K) a, (databaseUp c a && decisionPublishes c a) = true →
      decisionPublishes c a = true := fun _ _ hp => (Bool.and_eq_true_iff.mp hp).2
  rcases row_inserted h hD with hD | ⟨ins, pre, hins, hop, hadm, _⟩
  · rw [hw] at hD
    cases hD
  · have hmem : ins ∈ c.trace := hins.subset (List.mem_cons_self ..)
    refine ⟨ins, hmem, hop, fun t ht hdone => ?_⟩
    have hcall : (⟨.insertAction D, .ok ()⟩ : SysCall K) ∈ hist c.trace ins.tid :=
      mem_hist.mpr ⟨ins, hmem, rfl, admitted_answered hup h hins hop hadm⟩
    have hcalls := calls_of_suffix h hins
    rw [hop] at hcalls
    obtain ⟨t', ht', htag⟩ := h.tag_of_mem hmem
    obtain rfl : t = t' := Option.some.inj (ht.symm.trans ht')
    obtain ⟨tag, prog⟩ := t
    dsimp only at htag hdone
    rw [← htag] at hcalls
    have hends := (thread_obeys h ht).of_isDone hdone
    generalize hist pre ins.tid = t at hcalls
    -- by who wrote the row; the executor never writes `dispatched`
    cases inserted_by hcalls with
    | decision => exact Or.inl (decision_sent hpub h ht hdone hcall hres)
    | approve =>
        obtain ⟨r, hends⟩ := hends
        exact api_accounted (approves_dispatching _ _) hup h hw hends hcall hres
    | rollback =>
        obtain ⟨r, hends⟩ := hends
        exact api_accounted (reverses_dispatching _ _) hup h hw hends hcall hres
    | execute _ ha => cases ha <;> cases hres

end

/-! ## A publish that fails -/

namespace Scenario

def evidence : Evidence ℚ where
  metric := "cost_per_hour"
  value := some 100
  bucket := "3-12"
  resource := ⟨"c", "shop", "n", none, none, none⟩
  scores := ⟨8, 8, 0⟩
  confidence := some (9 / 10)
  baselineMature := true
  costDeltaUsdHr := 90

/-- An anomaly of confidence 0.90 is recorded and announced, and the policy is to throttle. -/
def announced : World ℚ :=
  { World.empty ℚ with
    nextUuid := 2
    anomalies := [⟨0, victim, 8, .unclassified, evidence, "open", 0, 9 / 10, true, 90⟩]
    policies := [⟨1, "default", [], "*", "throttle", 0⟩]
    anomalyQueue := [⟨0, victim, 8, some .unclassified, evidence, "open", 0, some (9 / 10)⟩] }

/-- The decision engine handles it, its publish being resolved as given. -/
def decision (choices : List Choice) : List (SysAct ℚ) :=
  [.start (.anomaly 0)] ++ calls 0 7 ++ choices.map (.step 0) ++ calls 0 1

def refused : Choice := ⟨.before .amqp, id⟩

end Scenario

open Scenario in
/-- The first attempt fails, the second is taken. -/
theorem dispatched_accounted_retried :
    ∃ (c : SysConfig ℚ) (D : ActionRow ℚ), D ∈ c.world.actionsLog ∧ D.result = .dispatched
      ∧ (Sent c D ∨ Withdrawn c D) := by
  obtain ⟨c, hrun, hcheck⟩ := System.exists_run (S := system settings) (w := announced)
    (p := fun c a => databaseUp c a && decisionPublishes c a) (l := decision [refused, .ok])
    (q := fun c => c.world.actionsLog.any (fun D => D.result = .dispatched)
      && c.threads.all fun t => t.prog.isDone) (by decide +kernel)
  simp only [Bool.and_eq_true, List.any_eq_true, List.all_eq_true, decide_eq_true_eq] at hcheck
  obtain ⟨⟨D, hD, hres⟩, hdone⟩ := hcheck
  obtain ⟨ins, hins, _, hacc⟩ := dispatched_accounted hrun rfl hD hres
  obtain ⟨t, ht, _⟩ := hrun.tag_of_mem hins
  exact ⟨c, D, hD, hres, hacc t ht (hdone t (List.mem_of_getElem? ht))⟩

open Scenario in
/--
**A decision whose publish fails twice stays `dispatched`.**

Its handler has ended, nothing was published, and no row says so.
-/
theorem dispatched_unaccounted :
    ∃ c : SysConfig ℚ, (system settings).Run (fun c a => databaseUp c a) announced c
      ∧ (∀ t ∈ c.threads, t.prog.isDone = true)
      ∧ ∃ D ∈ c.world.actionsLog, D.result = .dispatched ∧ ¬ Sent c D ∧ ¬ Withdrawn c D := by
  obtain ⟨c, hrun, hcheck⟩ := System.exists_run (S := system settings) (w := announced)
    (p := databaseUp) (l := decision [refused, refused])
    (q := fun c => c.world.actionsLog.any (fun D => D.result = .dispatched)
      && c.threads.all (fun t => t.prog.isDone)
      && c.trace.all (fun e => !(isPublish e.op && e.call.isOk))
      && c.world.actionsLog.all fun F => F.result ≠ .dispatchFailed) (by decide +kernel)
  simp only [Bool.and_eq_true, List.any_eq_true, List.all_eq_true, decide_eq_true_eq] at hcheck
  obtain ⟨⟨⟨⟨D, hD, hres⟩, hdone⟩, hunsent⟩, hkept⟩ := hcheck
  refine ⟨c, hrun, hdone, D, hD, hres, ?_, ?_⟩
  · intro h
    obtain ⟨e, he, m, hcall, _⟩ := h
    have hpub : isPublish e.op = true := by rw [show e.op = _ from congrArg Call.op hcall]; rfl
    have := hunsent e he
    rw [hpub, hcall] at this
    cases this
  · intro h
    obtain ⟨F, hF, hfailed, _⟩ := h
    exact hkept F hF hfailed

end HyperTrace.Proof
