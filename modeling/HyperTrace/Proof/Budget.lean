import HyperTrace.Effect.Count
import HyperTrace.Effect.Record
import HyperTrace.Proof.BlastRadius
import HyperTrace.Proof.Outcome

/-!
# Whose budget a rollback is charged to

The rate limit counts the executor's rows by the service in their target, and the
executor copies that from the message. For a throttle or freeze it is the service
that was acted on. For a rollback it is whatever the API put there, and the API puts
nothing. So the count is that of the changes made to a service's workload, less
those made by rollbacks, and less those whose row the database refused.
-/

namespace HyperTrace.Proof

open HyperTrace Effect

variable {K : Type}

/-- The service a patch was made for: the one a request names or, to roll back, that of the row. -/
def changedService (e : SysEvent K) : Option String :=
  match e.tag with
  | .execute m =>
      if m.action = some "rollback" then
        (m.targetActionId.bind e.before.actionById).bind ActionRow.target
      else m.service
  | _ => none

/-- The service the message names. -/
def namedService (e : SysEvent K) : Option String :=
  match e.tag with
  | .execute m => m.service
  | _ => none

/-- The change is a rollback. -/
def isReversal (e : SysEvent K) : Bool :=
  match e.tag with
  | .execute m => m.action = some "rollback"
  | _ => false

theorem namedService_of_tag {e : SysEvent K} {m : RemediationMessage} (htag : e.tag = .execute m) :
    namedService e = m.service := by
  unfold namedService
  rw [htag]

theorem changedService_of_tag {e : SysEvent K} {m : RemediationMessage} (htag : e.tag = .execute m)
    (hact : m.action ≠ some "rollback") : changedService e = m.service := by
  unfold changedService
  rw [htag]
  exact if_neg hact

theorem isReversal_of_tag {e : SysEvent K} {m : RemediationMessage} (htag : e.tag = .execute m) :
    isReversal e = true ↔ m.action = some "rollback" := by
  unfold isReversal
  rw [htag]
  exact decide_eq_true_iff

/-- The row a call writes. -/
def rowOf : Op K → Option (ActionRow K)
  | .insertAction row => some row
  | _ => none

/-- When a change was made, going by the row its delivery has written; without one, by the patch. -/
def madeAt (tr : List (SysEvent K)) (e : SysEvent K) : Time :=
  (((tr.find? fun e' => e'.tid = e.tid && isInsert e'.op).bind fun e' => rowOf e'.op).map
    ActionRow.executedAt).getD (time e)

/-- A successful change, made from `since` on. -/
def changesSince (since : Time) (tr : List (SysEvent K)) (e : SysEvent K) : Bool :=
  isPatch e.op && e.call.isOk && decide (since ≤ madeAt tr e)

/-- The successful changes that were made to the workload of a service from `since` on. -/
def changesTo (service : String) (since : Time) (tr : List (SysEvent K)) : Nat :=
  tr.countP fun e => changesSince since tr e && changedService e = some service

/-- The call appended to the ledger. -/
def wrote (e : SysEvent K) : Bool := e.before.actionsLog.length < e.after.actionsLog.length

/-- The delivery tried to write its row, and the row did not get into the ledger. -/
def lost (tr : List (SysEvent K)) (e : SysEvent K) : Bool :=
  tr.any fun e' => e'.tid = e.tid && isInsert e'.op && !wrote e'

/-- The insert wrote a row that counts for the service. -/
def countsFor (service : String) (since : Time) (e : SysEvent K) : Bool :=
  wrote e && (rowOf e.op).any (counted since Executor.executedResults (some service))

def isCheck : Op K → Bool
  | .countActions _ _ _ => true
  | _ => false

end HyperTrace.Proof

namespace HyperTrace.Executor

open Effect Proof

variable {K : Type} [Scalar K] {cfg : Config} {req : Request} {h : History K}

/-- A delivery only checks the rate limit before it has done anything. -/
theorem Ends.idle_of_check {m : RemediationMessage} {r : Except Err Unit} (he : Ends cfg m h r)
    {u v : History K} {d : SysCall K} (hsplit : h = u ++ d :: v) (hd : isCheck d.op = true) :
    Idle v := by
  have hrest : ∀ {t : History K} {l : History K}, Idle t → t = l ++ d :: v → Idle v := by
    intro t l hidle heq call hcall
    exact hidle call (heq ▸ List.mem_append_right _ (List.mem_cons_of_mem _ hcall))
  have hpeel : ∀ {x : SysCall K} {t u : History K}, x :: t = u ++ d :: v →
      isCheck x.op = false → ∃ u', t = u' ++ d :: v := by
    intro x t u heq hx
    cases u with
    | nil =>
        obtain ⟨rfl, _⟩ := List.cons.inj heq
        rw [hx] at hd
        cases hd
    | cons y u => exact ⟨u, (List.cons.inj heq).2⟩
  cases he with
  | malformed => simp at hsplit
  | noTarget => simp at hsplit
  | badReference _ hl => exact hrest hl.idle hsplit
  | raised hidle =>
      cases u with
      | nil =>
          obtain ⟨_, rfl⟩ := List.cons.inj hsplit
          exact hidle
      | cons x u => exact hrest hidle (List.cons.inj hsplit).2
  | recorded _ _ ha =>
      obtain ⟨u₁, h₁⟩ := hpeel hsplit rfl
      obtain ⟨u₂, h₂⟩ := hpeel h₁ rfl
      obtain ⟨u₃, h₃⟩ := hpeel h₂ rfl
      rcases ha.patched_or_idle with ⟨c, h₀, rfl, hp, _, hidle, _⟩ | ⟨hidle, _⟩
      · obtain ⟨u₄, h₄⟩ := hpeel h₃ (by cases hop : c.op <;> rw [hop] at hp <;> first | rfl | cases hp)
        exact hrest hidle h₄
      · exact hrest hidle h₃

end HyperTrace.Executor

namespace HyperTrace.Proof

open HyperTrace Effect

variable {K : Type} [Scalar K] {cfg : Settings} {P : SysConfig K → SysAct K → Prop} {w : World K}
variable {c : SysConfig K} {service : String} {since : Time}

omit [Scalar K] in
theorem gives_some [Scalar K] (may : History K → Op K → Prop) (t : History K) (o : Op K) :
    ∃ r, (anyAnswer may).gives t o r := by
  by_cases ho : isLocal o = true
  · obtain ⟨a, ha⟩ := exec_local (w := World.empty K) (x := .ok) ho
    exact ⟨.ok a, fun _ => rfl⟩
  · exact ⟨.error (.api 404), fun ho' => absurd ho' ho⟩

/-- What a delivery calls after a check tells that it has done nothing before it. -/
theorem idle_of_check (h : (system cfg).Run P w c) {i : Nat} {m : RemediationMessage}
    {since : Time} {rs : List ActionResult} {s : Option String}
    {k : Except Err Nat → Py K Reply}
    (ht : c.threads[i]? = some ⟨.execute m, .op (.countActions since rs s) k⟩) :
    Idle (hist c.trace i) := by
  obtain ⟨r, hr⟩ := gives_some (Calls cfg (.execute m)) (hist c.trace i) (.countActions since rs s)
  obtain ⟨t, _, hend⟩ := ((thread_obeys h ht).2 r hr).exists_end (gives_some _)
  generalize hh : t ++ (⟨.countActions since rs s, r⟩ : SysCall K) :: hist c.trace i = t' at hend
  obtain @⟨t', r', ack, res, hends, _⟩ := hend
  cases t with
  | nil => cases (List.cons.inj hh).1
  | cons x t => exact hends.idle_of_check (List.cons.inj hh).2.symm rfl

/-! ## The rows that count -/

/-- A row that counts is written by the executor, once its patch was answered. -/
theorem insert_of_counted (h : (system cfg).Run P w c) {e : SysEvent K} {pre : List (SysEvent K)}
    (he : e :: pre <:+ c.trace) (hc : countsFor service since e = true) :
    ∃ m req id now h₀ res extra, e.tag = .execute m ∧ Executor.parseRequest m = .ok req
      ∧ e.op = .insertAction (Executor.outcomeRow cfg.executor id now req res extra)
      ∧ hist pre e.tid = ⟨.uuid4, .ok id⟩ :: ⟨.now, .ok now⟩ :: h₀
      ∧ Executor.Answers cfg.executor req h₀ res extra
      ∧ Executor.executedResults.contains res = true ∧ req.service = service ∧ since ≤ now := by
  obtain ⟨row, hrow, hcount⟩ := (Option.any_eq_true _ _).mp (Bool.and_eq_true_iff.mp hc).2
  have hop : e.op = .insertAction row := by
    generalize e.op = o at hrow
    cases o with
    | insertAction row' =>
        cases hrow
        rfl
    | _ => cases hrow
  simp only [counted, Bool.and_eq_true, decide_eq_true_eq] at hcount
  obtain ⟨⟨hsince, hres⟩, htarget⟩ := hcount
  have hcalls := calls_of_suffix h he
  rw [hop] at hcalls
  obtain ⟨m, req, id, now, h₀, res, extra, htag, hp, rfl, hhist, ha⟩ :=
    executor_of_inserted (inserted_by hcalls) (Or.inl hres)
  refine ⟨m, req, id, now, h₀, res, extra, htag, hp, hop, hhist, ha, hres, ?_, hsince⟩
  simpa [Executor.outcomeRow] using htarget

omit [Scalar K] in
theorem countsFor_of_insert {e : SysEvent K} {row : ActionRow K} (hop : e.op = .insertAction row)
    (hw : wrote e = true) :
    countsFor service since e = counted since Executor.executedResults (some service) row := by
  unfold countsFor
  rw [hop, hw]
  rfl

omit [Scalar K] in
/-- A call adds to the count when it is one that counts. -/
theorem outcomes_step {e : SysEvent K} (hch : Changes e.before e.op e.after) :
    outcomesFrom (some service) since e.after.actionsLog
      = outcomesFrom (some service) since e.before.actionsLog
        + if countsFor service since e = true then 1 else 0 := by
  rcases hch.actionsLog with hsame | ⟨row, hop, _, hlog⟩
  · have hw : wrote e = false := by
      rw [wrote, hsame, decide_eq_false_iff_not]
      omega
    rw [hsame, countsFor, hw]
    rfl
  · have hw : wrote e = true := by
      rw [wrote, hlog, List.length_append, decide_eq_true_eq]
      exact Nat.lt_succ_self _
    rw [hlog, countsFor_of_insert hop hw, outcomesFrom, List.countP_append, List.countP_singleton]
    rfl

/-- **The ledger counts what was written to it.** -/
theorem ledger_count (h : (system cfg).Run P (World.empty K) c) (service : String) (since : Time) :
    outcomesFrom (some service) since c.world.actionsLog
      = c.trace.countP (countsFor service since) := by
  refine h.keeps (I := fun v tr =>
    outcomesFrom (some service) since v.actionsLog = tr.countP (countsFor service since)) rfl ?_ ?_ ?_
  · intro c x w' tag p hst ih
    rw [(start_starts hst).1.actionsLog]
    exact ih
  · intro c i x tag o k _ _ _ _ ih
    rw [List.countP_cons, ← ih]
    exact outcomes_step (e := ⟨i, tag, o, (exec c.world o x).1, c.world, _⟩)
      (exec_changes c.world o x)
  · intro c v ih
    have hlog : (c.world.env v).actionsLog = c.world.actionsLog := by cases v <;> rfl
    exact (congrArg (outcomesFrom (some service) since) hlog).trans ih

/-! ## A patch and its row -/

omit [Scalar K] in
theorem changesSince_iff {tr : List (SysEvent K)} {e : SysEvent K} :
    changesSince since tr e = true ↔ isPatch e.op = true ∧ e.call.isOk = true
      ∧ since ≤ madeAt tr e := by
  simp [changesSince, and_assoc]

omit [Scalar K] in
theorem exists_of_isInsert {o : Op K} (ho : isInsert o = true) : ∃ row, o = .insertAction row := by
  cases o with
  | insertAction row => exact ⟨row, rfl⟩
  | _ => cases ho

/-- The executor writes one row for a message. -/
theorem insert_once (h : (system cfg).Run P w c) {e e' : SysEvent K} {pre pre' : List (SysEvent K)}
    (he : e :: pre <:+ c.trace) (he' : e' :: pre' <:+ c.trace) {m : RemediationMessage}
    (htag : e.tag = .execute m) (hi : e'.tid = e.tid) {row row' : ActionRow K}
    (hop : e.op = .insertAction row) (hop' : e'.op = .insertAction row') : e' = e := by
  -- of two inserts by one delivery the later one would find the earlier
  have hfirst : ∀ {e₁ e₂ : SysEvent K} {pre₁ : List (SysEvent K)} {row₁ row₂ : ActionRow K},
      e₁ :: pre₁ <:+ c.trace → e₁.tag = .execute m → e₁.op = .insertAction row₁ → e₂ ∈ pre₁ →
      e₂.tid = e₁.tid → e₂.op ≠ .insertAction row₂ := by
    intro e₁ e₂ pre₁ row₁ row₂ h₁ htag₁ hop₁ hmem hi₂
    have hcalls := calls_of_suffix h h₁
    rw [htag₁, hop₁] at hcalls
    have hmem₂ : e₂.call ∈ hist pre₁ e₁.tid := mem_hist.mpr ⟨e₂, hmem, hi₂, rfl⟩
    generalize hist pre₁ e₁.tid = t at hcalls hmem₂
    cases inserted_by hcalls with
    | @execute _ _ h₀ now id _ _ _ ha =>
        have hun : Unrecorded (⟨.uuid4, .ok id⟩ :: ⟨.now, .ok now⟩ :: h₀) :=
          .skip rfl (.skip rfl ha.unrecorded)
        exact hun _ hmem₂ row₂
  have htag' : e'.tag = .execute m :=
    (h.tag_eq (he'.subset (List.mem_cons_self ..)) (he.subset (List.mem_cons_self ..)) hi).trans htag
  rcases suffix_cases he he' with ⟨rfl, _⟩ | hlt | hlt
  · rfl
  · exact absurd hop (hfirst he' htag' hop' (hlt.subset (List.mem_cons_self ..)) hi.symm)
  · exact absurd hop' (hfirst he htag hop (hlt.subset (List.mem_cons_self ..)) hi)

/-- A change is dated by the row of its delivery. -/
theorem madeAt_of_insert (h : (system cfg).Run P w c) {e e' : SysEvent K}
    {pre' : List (SysEvent K)} (he' : e' :: pre' <:+ c.trace) {m : RemediationMessage}
    (htag : e'.tag = .execute m) (hi : e'.tid = e.tid) {row : ActionRow K}
    (hop : e'.op = .insertAction row) : madeAt c.trace e = row.executedAt := by
  have hmem : e' ∈ c.trace := he'.subset (List.mem_cons_self ..)
  have hsome : (c.trace.find? fun e' => e'.tid = e.tid && isInsert e'.op).isSome := by
    rw [List.find?_isSome]
    exact ⟨e', hmem, by simp [hi, hop, isInsert]⟩
  obtain ⟨e'', hfind⟩ := Option.isSome_iff_exists.mp hsome
  have hboth := List.find?_some hfind
  simp only [Bool.and_eq_true, decide_eq_true_eq] at hboth
  obtain ⟨row'', hop''⟩ := exists_of_isInsert hboth.2
  obtain ⟨pre'', hsuf, _⟩ := h.origin_of_mem (List.mem_of_find?_eq_some hfind)
  have hsame : e'' = e' := insert_once h he' hsuf htag (hboth.1.trans hi.symm) hop hop''
  unfold madeAt
  rw [hfind, hsame]
  simp [hop, rowOf]

/-- The delivery of a patch that was recorded has written the row of it. -/
theorem insert_of_patch (h : (system cfg).Run P w c) {e : SysEvent K} {pre : List (SysEvent K)}
    (he : e :: pre <:+ c.trace) (hp : isPatch e.op = true)
    (hrec : ¬ Unrecorded (hist c.trace e.tid)) :
    ∃ e' pre' m req id now res extra, e' :: pre' <:+ c.trace ∧ e'.tid = e.tid
      ∧ e'.tag = .execute m ∧ e.tag = .execute m ∧ Executor.parseRequest m = .ok req
      ∧ e'.op = .insertAction (Executor.outcomeRow cfg.executor id now req res extra)
      ∧ Executor.executedResults.contains res = true := by
  unfold Unrecorded at hrec
  push Not at hrec
  obtain ⟨call, hcall, row, hrow⟩ := hrec
  obtain ⟨e', he', hi, rfl⟩ := mem_hist.mp hcall
  obtain ⟨pre', hsuf, _⟩ := h.origin_of_mem he'
  obtain ⟨m, _, htag, _⟩ := patched_by hp (calls_of_suffix h he)
  have htag' : e'.tag = .execute m :=
    (h.tag_eq he' (he.subset (List.mem_cons_self ..)) hi).trans htag
  have hop : e'.op = .insertAction row := hrow
  have hcalls := calls_of_suffix h hsuf
  rw [htag', hop] at hcalls
  rcases suffix_cases he hsuf with ⟨rfl, _⟩ | hlt | hlt
  · rw [hop] at hp
    cases hp
  -- written after the patch, by the delivery that sent it
  · have hmem : e.call ∈ hist pre' e'.tid :=
      mem_hist.mpr ⟨e, hlt.subset (List.mem_cons_self ..), hi.symm, rfl⟩
    generalize hist pre' e'.tid = t at hcalls hmem
    cases inserted_by hcalls with
    | @execute _ req h₀ now id res extra hparse ha =>
        refine ⟨e', pre', m, req, id, now, res, extra, hsuf, hi, htag', htag, hparse, hop, ?_⟩
        have hmem₀ : e.call ∈ h₀ := mem_of_stamped hmem (acts_of_isPatch hp) rfl rfl
        rcases ha.patched_or_idle with ⟨_, _, _, _, _, _, ⟨rfl, _⟩ | ⟨rfl, _⟩⟩ | ⟨hidle, _⟩
        · rfl
        · rfl
        · exact absurd hidle (not_idle_of_patch hp hmem₀)
  · -- nothing was written before the patch
    have hmem : e'.call ∈ hist pre e.tid :=
      mem_hist.mpr ⟨e', hlt.subset (List.mem_cons_self ..), hi, rfl⟩
    exact absurd hrow ((idle_of_patch h he hp).unrecorded _ hmem row)

/-- Every answered patch has its row, when the executor's thread has only read. -/
theorem recorded_of_idle (h : (system cfg).Run P w c) {i : Nat}
    {t : Thread (Op K) Op.Res Err (Tag K) Reply} (ht : c.threads[i]? = some t)
    (htag : consumerOf t.tag = some .executorActions) (hidle : Idle (hist c.trace i))
    {e : SysEvent K} {pre : List (SysEvent K)} (he : e :: pre <:+ c.trace)
    (hp : isPatch e.op = true) (hok : e.call.isOk = true) : ¬ Unrecorded (hist c.trace e.tid) := by
  intro hun
  have hmem : e ∈ c.trace := he.subset (List.mem_cons_self ..)
  obtain ⟨m, _, hetag, _⟩ := patched_by hp (calls_of_suffix h he)
  obtain ⟨t', ht', htag'⟩ := h.tag_of_mem hmem
  have hi : i = e.tid := by
    refine one_delivery h ht ht' htag ?_ hidle.unsettled (unsettled_of_unrecorded h he hp hok hun)
    rw [htag', hetag]
    rfl
  exact not_idle_of_patch hp (mem_hist.mpr ⟨e, hmem, hi.symm, rfl⟩) hidle

/-- A change from `since` on, for a message that names the service, with its row not lost. -/
def named (service : String) (since : Time) (tr : List (SysEvent K)) (e : SysEvent K) : Bool :=
  changesSince since tr e && decide (namedService e = some service) && !lost tr e

omit [Scalar K] in
theorem named_iff {tr : List (SysEvent K)} {e : SysEvent K} : named service since tr e = true ↔
    changesSince since tr e = true ∧ namedService e = some service ∧ lost tr e = false := by
  simp [named, and_assoc]

/-- The row of a change is lost when its one insert did not write it. -/
theorem lost_of_insert (h : (system cfg).Run P w c) {e e' : SysEvent K} {pre' : List (SysEvent K)}
    (he' : e' :: pre' <:+ c.trace) {m : RemediationMessage} (htag : e'.tag = .execute m)
    (hi : e'.tid = e.tid) {row : ActionRow K} (hop : e'.op = .insertAction row) :
    lost c.trace e = !wrote e' := by
  have hmem : e' ∈ c.trace := he'.subset (List.mem_cons_self ..)
  cases hw : wrote e' with
  | false =>
      refine List.any_eq_true.mpr ⟨e', hmem, ?_⟩
      simp [hi, hop, isInsert, hw]
  | true =>
      refine List.any_eq_false.mpr fun e₁ he₁ hlost => ?_
      simp only [Bool.and_eq_true, decide_eq_true_eq, Bool.not_eq_true'] at hlost
      obtain ⟨⟨hi₁, hins⟩, hw₁⟩ := hlost
      obtain ⟨pre₁, hsuf⟩ := exists_suffix_of_mem he₁
      obtain ⟨row₁, hop₁⟩ := exists_of_isInsert hins
      rw [insert_once h he' hsuf htag (hi₁.trans hi.symm) hop hop₁, hw] at hw₁
      cases hw₁

theorem onePer_named (h : (system cfg).Run P w c) (service : String) (since : Time) :
    OnePer Event.tid (named service since c.trace) c.trace := by
  intro e pre he hc e' hmem hc' hi
  obtain ⟨hp, _⟩ := changesSince_iff.mp (named_iff.mp hc).1
  obtain ⟨hp', _⟩ := changesSince_iff.mp (named_iff.mp hc').1
  exact not_idle_of_patch hp' (mem_hist.mpr ⟨e', hmem, hi.symm, rfl⟩) (idle_of_patch h he hp)

theorem onePer_countsFor (h : (system cfg).Run P w c) (service : String) (since : Time) :
    OnePer Event.tid (countsFor service since) c.trace := by
  intro e pre he hc e' hmem hc' hi
  obtain ⟨pre', hsuf⟩ := exists_suffix_of_mem hmem
  have hsuf' : e' :: pre' <:+ c.trace := hsuf.trans ((List.suffix_cons e pre).trans he)
  obtain ⟨m, _, _, _, _, _, _, htag, _, hop, hhist, ha, _⟩ := insert_of_counted h he hc
  obtain ⟨_, _, _, _, _, _, _, _, _, hop', _⟩ := insert_of_counted h hsuf' hc'
  have hcall : e'.call ∈ hist pre e.tid := mem_hist.mpr ⟨e', hmem, hi.symm, rfl⟩
  rw [hhist] at hcall
  have hact : acts e'.call.op = true := by
    rw [show e'.call.op = _ from hop']
    rfl
  exact ha.unrecorded _ (mem_of_stamped hcall hact rfl rfl) _ hop'

/-- **What a check counts is the changes made for messages that name the service.** -/
theorem count_named (h : (system cfg).Run P (World.empty K) c) {i : Nat} {m : RemediationMessage}
    {since' : Time} {rs : List ActionResult} {s : Option String} {k : Except Err Nat → Py K Reply}
    (ht : c.threads[i]? = some ⟨.execute m, .op (.countActions since' rs s) k⟩) (service : String)
    (since : Time) : outcomesFrom (some service) since c.world.actionsLog
      = c.trace.countP (named service since c.trace) := by
  rw [ledger_count h]
  -- each delivery makes one change and writes one row: match them by delivery
  refine countP_eq_of_key (onePer_countsFor h service since) (onePer_named h service since) ?_ ?_
  · intro e' he' hc
    obtain ⟨pre', hsuf⟩ := exists_suffix_of_mem he'
    obtain ⟨m', req, id, now, h₀, res, extra, htag, hparse, hop, hhist, ha, hres, hservice, hsince⟩ :=
      insert_of_counted h hsuf hc
    rcases ha.patched_or_idle with ⟨call, _, rfl, hp, hok, _⟩ | ⟨_, hnot⟩
    · have hcall : call ∈ hist pre' e'.tid := by
        rw [hhist]
        exact List.mem_cons_of_mem _ (List.mem_cons_of_mem _ (List.mem_cons_self ..))
      obtain ⟨e, hmem, hi, rfl⟩ := mem_hist.mp hcall
      have hmem' : e ∈ c.trace := ((List.suffix_cons e' pre').trans hsuf).subset hmem
      refine ⟨e, hmem', named_iff.mpr ⟨changesSince_iff.mpr ⟨hp, hok, ?_⟩, ?_, ?_⟩, hi⟩
      · rw [madeAt_of_insert h hsuf htag hi.symm hop]
        exact hsince
      · obtain ⟨_, hmservice, _⟩ := Executor.parseRequest_ok hparse
        rw [namedService_of_tag ((h.tag_eq hmem' he' hi).trans htag), hmservice, hservice]
      · rw [lost_of_insert h hsuf htag hi.symm hop, (Bool.and_eq_true_iff.mp hc).1]
        rfl
    · rw [hres] at hnot
      cases hnot
  · intro e he hc
    obtain ⟨pre, hsuf⟩ := exists_suffix_of_mem he
    obtain ⟨hchange, hname, hkept⟩ := named_iff.mp hc
    obtain ⟨hp, hok, hsince⟩ := changesSince_iff.mp hchange
    have hrec := recorded_of_idle h ht rfl (idle_of_check h ht) hsuf hp hok
    obtain ⟨e', pre', m', req, id, now, res, extra, hsuf', hi, htag', htag, hparse, hop, hres⟩ :=
      insert_of_patch h hsuf hp hrec
    refine ⟨e', hsuf'.subset (List.mem_cons_self ..), ?_, hi⟩
    rw [madeAt_of_insert h hsuf' htag' hi hop] at hsince
    rw [lost_of_insert h hsuf' htag' hi hop, Bool.not_eq_false'] at hkept
    obtain ⟨_, hmservice, _⟩ := Executor.parseRequest_ok hparse
    rw [namedService_of_tag htag, hmservice] at hname
    rw [countsFor_of_insert hop hkept]
    simp only [counted, Bool.and_eq_true, decide_eq_true_eq]
    exact ⟨⟨hsince, hres⟩, hname⟩

/-! ## What a rollback names -/

/-- A rollback was made for the empty service, everything else for the one that was changed. -/
theorem named_cases (hP : ∀ c a, P c a → noForgery c a = true)
    (h : (system cfg).Run P (World.empty K) c) {e : SysEvent K} (he : e ∈ c.trace)
    (hp : isPatch e.op = true) :
    isReversal e = true ∧ namedService e = some ""
      ∨ ¬ isReversal e = true ∧ namedService e = changedService e := by
  obtain ⟨pre, hsuf⟩ := exists_suffix_of_mem he
  obtain ⟨m, _, htag, _⟩ := patched_by hp (calls_of_suffix h hsuf)
  rw [namedService_of_tag htag]
  by_cases hroll : m.action = some "rollback"
  · obtain ⟨t, ht, htag'⟩ := h.tag_of_mem he
    have hm := (delivered_of_thread h ht).1 m (htag'.trans htag)
    exact Or.inl ⟨(isReversal_of_tag htag).mpr hroll, (rollback_request hP h hm hroll).1⟩
  · refine Or.inr ⟨fun hrev => hroll ((isReversal_of_tag htag).mp hrev), ?_⟩
    exact (changedService_of_tag htag hroll).symm

omit [Scalar K] in
theorem changes_iff {tr : List (SysEvent K)} {e : SysEvent K} :
    (changesSince since tr e && decide (changedService e = some service)) = true ↔
      changesSince since tr e = true ∧ changedService e = some service := by
  simp

/--
**When rollbacks count against the budget of the service they change.**

Take any check of the rate limit that the executor made for a service. The number it
was answered is that of the successful changes made to the service's workload in the
window exactly when none of them was a rollback, and none has lost its row.
-/
theorem budget_iff (h : (system cfg).Run (fun c a => noForgery c a) (World.empty K) c)
    {e : SysEvent K} {pre : List (SysEvent K)} (he : e :: pre <:+ c.trace)
    {m : RemediationMessage} (htag : e.tag = .execute m) {service : String}
    (hservice : service ≠ "") {since : Time} {n : Nat}
    (hcall : e.call = ⟨.countActions since Executor.executedResults (some service), .ok n⟩) :
    n = changesTo service since pre ↔
      ∀ e' ∈ pre, changesSince since pre e' = true → changedService e' = some service →
        isReversal e' = false ∧ lost pre e' = false := by
  obtain ⟨tid, tag, op, res, before, after⟩ := e
  obtain rfl : tag = .execute m := htag
  cases hcall
  obtain ⟨c₀, x, k, hr, _, hw, htr, ht, hx⟩ := h.origin he
  have hn : n = outcomesFrom (some service) since c₀.world.actionsLog := by
    rw [hw]
    exact exec_countActions (congrArg Prod.fst hx)
  rw [hn, count_named hr ht service since, htr]
  have hcases : ∀ e' ∈ pre, changesSince since pre e' = true →
      isReversal e' = true ∧ namedService e' = some ""
        ∨ ¬ isReversal e' = true ∧ namedService e' = changedService e' := by
    intro e' he' hch
    exact named_cases (fun _ _ hp => hp) hr (htr ▸ he') (changesSince_iff.mp hch).1
  constructor
  · intro hcount e' he' hch hchanged
    -- every change counted for the service is one to it, so there are no others
    have hall := eq_of_countP_eq (p := named service since pre) (fun e₁ he₁ hc₁ => ?_) hcount
    · obtain ⟨_, hname, hkept⟩ := named_iff.mp (hall e' he' (changes_iff.mpr ⟨hch, hchanged⟩))
      refine ⟨?_, hkept⟩
      rcases hcases e' he' hch with ⟨_, hempty⟩ | ⟨hnot, _⟩
      · rw [hempty] at hname
        exact absurd (Option.some.inj hname).symm hservice
      · exact Bool.not_eq_true _ ▸ hnot
    · obtain ⟨hch₁, hname, _⟩ := named_iff.mp hc₁
      refine changes_iff.mpr ⟨hch₁, ?_⟩
      rcases hcases e₁ he₁ hch₁ with ⟨_, hempty⟩ | ⟨_, hsame⟩
      · rw [hempty] at hname
        exact absurd (Option.some.inj hname).symm hservice
      · rw [← hsame, hname]
  · intro hall
    refine List.countP_congr fun e' he' => ?_
    rw [named_iff, changes_iff]
    refine and_congr_right fun hch => ?_
    rcases hcases e' he' hch with ⟨hrev, hempty⟩ | ⟨_, hsame⟩
    · rw [hempty]
      refine iff_of_false (fun hboth => hservice (Option.some.inj hboth.1).symm) fun hchanged => ?_
      rw [(hall e' he' hch hchanged).1] at hrev
      cases hrev
    · rw [hsame]
      exact and_iff_left_of_imp fun hchanged => (hall e' he' hch hchanged).2

/-! ## A rollback that is not counted -/

/-- What a check looked back to, for which service, and what it was answered. -/
def checked : SysCall K → Option (Time × String × Nat)
  | ⟨.countActions since rs (some service), .ok n⟩ =>
      if rs = Executor.executedResults then some (since, service, n) else none
  | _ => none

omit [Scalar K] in
theorem of_checked {call : SysCall K} {since : Time} {service : String} {n : Nat}
    (h : checked call = some (since, service, n)) :
    call = ⟨.countActions since Executor.executedResults (some service), .ok n⟩ := by
  unfold checked at h
  split at h
  · split at h
    · rename_i hrs
      cases h
      rw [hrs]
    · cases h
  · cases h

namespace Scenario

/-- The service has its budget back, is rolled back, and is to be throttled once more. -/
def rethrottled : List (SysAct ℚ) :=
  executed ++ [.env (.tick 960000000)] ++ [.start (.rollback sre 1)] ++ calls 13 5 ++
    [.start (.remediation 0)] ++ calls 14 7 ++ onceMore 15 ++ calls 16 2

/-- The victim was checked and found to have been left alone, and then it was patched. -/
def overlooks (c : SysConfig ℚ) : Bool :=
  match c.trace with
  | p :: _ :: e :: pre =>
      contains (some victim) p && decide (p.tid = e.tid) && (checked e.call).any fun x =>
        x.2.1 = victim && x.2.2 = 0 && changesTo victim x.1 pre = 1
  | _ => false

/-- The executor is counting one change of the victim, and nothing has been rolled back. -/
def countsOne (c : SysConfig ℚ) : Bool :=
  match c.trace with
  | e :: pre =>
      match e.tag with
      | .execute _ => (checked e.call).any fun x =>
          x.2.1 = victim && x.2.2 = 1 && pre.all fun e' => !isReversal e' && !lost pre e'
      | _ => false
  | _ => false

theorem of_countsOne {c : SysConfig ℚ} (h : countsOne c = true) :
    ∃ e pre m since, c.trace = e :: pre ∧ e.tag = .execute m
      ∧ e.call = ⟨.countActions since Executor.executedResults (some victim), .ok (1 : Nat)⟩
      ∧ ∀ e' ∈ pre, isReversal e' = false ∧ lost pre e' = false := by
  unfold countsOne at h
  split at h
  · rename_i e pre htr
    split at h
    · rename_i m htag
      obtain ⟨⟨since, service, n⟩, hchecked, hall⟩ := (Option.any_eq_true _ _).mp h
      simp only [Bool.and_eq_true, decide_eq_true_eq, List.all_eq_true,
        Bool.not_eq_true'] at hall
      obtain ⟨⟨rfl, rfl⟩, hnone⟩ := hall
      exact ⟨e, pre, m, since, htr, htag, of_checked hchecked, hnone⟩
    · cases h
  · cases h

end Scenario

open Scenario in
/--
**A rollback is charged to nobody.**

A throttle is rolled back once the service has its budget back. The next check, of a
request to throttle the service again, is answered that it was not changed at all,
although it just was; and it is changed once more.
-/
theorem rollback_uncharged :
    ∃ (c : SysConfig ℚ) (p q e : SysEvent ℚ) (pre : List (SysEvent ℚ)) (since : Time),
      (system settings).Run (fun c a => noForgery c a) (World.empty ℚ) c
        ∧ c.trace = p :: q :: e :: pre
        ∧ e.call = ⟨.countActions since Executor.executedResults (some victim), .ok (0 : Nat)⟩
        ∧ changesTo victim since pre = 1
        ∧ p.tid = e.tid ∧ contains (some victim) p = true := by
  obtain ⟨c, hrun, hcheck⟩ := System.exists_run (S := system settings) (w := World.empty ℚ)
    (p := noForgery) (l := rethrottled) (q := overlooks) (by decide +kernel)
  unfold overlooks at hcheck
  split at hcheck
  · rename_i p q e pre htr
    rw [Bool.and_eq_true, Bool.and_eq_true] at hcheck
    obtain ⟨⟨hpatch, hi⟩, hany⟩ := hcheck
    obtain ⟨⟨since, service, n⟩, hchecked, hall⟩ := (Option.any_eq_true _ _).mp hany
    simp only [Bool.and_eq_true, decide_eq_true_eq] at hall
    obtain ⟨⟨rfl, rfl⟩, hone⟩ := hall
    exact ⟨c, p, q, e, pre, since, hrun, htr, of_checked hchecked, hone,
      of_decide_eq_true hi, hpatch⟩
  · cases hcheck

open Scenario in
/-- As long as nothing is rolled back, what was changed is counted. -/
theorem budget_iff_throttled :
    ∃ (c : SysConfig ℚ) (e : SysEvent ℚ) (pre : List (SysEvent ℚ)) (since : Time),
      e :: pre <:+ c.trace
        ∧ e.call = ⟨.countActions since Executor.executedResults (some victim), .ok (1 : Nat)⟩
        ∧ 1 = changesTo victim since pre := by
  obtain ⟨c, hrun, hcheck⟩ := System.exists_run (S := system settings) (w := World.empty ℚ)
    (p := noForgery) (l := executed ++ onceMore 13) (q := countsOne) (by decide +kernel)
  obtain ⟨e, pre, m, since, htr, htag, hcall, hnone⟩ := of_countsOne hcheck
  have he : e :: pre <:+ c.trace := htr ▸ List.suffix_refl _
  refine ⟨c, e, pre, since, he, hcall, (budget_iff hrun he htag (by decide) hcall).mpr ?_⟩
  intro e' he' _ _
  exact hnone e' he'

end HyperTrace.Proof
