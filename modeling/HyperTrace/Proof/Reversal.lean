import HyperTrace.Effect.Count
import HyperTrace.Effect.Record
import HyperTrace.Proof.Approval
import HyperTrace.Proof.Outcome
import Mathlib.Data.List.Perm.Basic

/-!
# Rolling back an executed action

Neither the API, when it picks the latest executed row, nor the executor, when it
looks at the prior state and the deadline, asks whether the row was reversed
before. As with approvals there is a token that would have to be asked for. The
right to reverse an executed row is taken by reading the row, travels with the
request through the queue to the executor, and is spent by writing the
`rolled_back` row. It is there twice exactly when a rollback call reads a row
that was already reversed, or whose reversal is still on its way.

The ledger only tells of a reversal that was recorded. A patch that took effect
without an answer, or whose row could not be written, leaves no trace to go by.
-/

namespace HyperTrace.Proof

open HyperTrace Effect

variable {K : Type}

/-- The row records a reversal of the executed row `r`. -/
def reverses (r : Uuid) (row : ActionRow K) : Bool :=
  row.result = .rolledBack && row.rollbackRef = some r

/-- The request is to reverse the executed row `r`. -/
def targets (r : Uuid) (m : RemediationMessage) : Bool := m.targetActionId = some r

/-- The call read the executed row `r`. -/
def readsExecuted (r : Uuid) : SysCall K → Bool
  | ⟨.latestAction _ .executed, .ok (some row)⟩ => ActionRow.id row = r
  | _ => false

/--
A rollback call holds the row it has read until its request is published, and the
executor holds the row it is to reverse until it tries to write the outcome.
-/
def reversalToken (K : Type) (r : Uuid) :
    Token (Op K) Op.Res Err (World K) (Tag K) Reply where
  holds t h :=
    match t with
    | ⟨.rollback _ _, .op _ _⟩ =>
        h.any (readsExecuted r) && h.all fun c => !(isPublish c.op && c.isOk)
    | ⟨.execute m, .op _ _⟩ => targets r m && h.all fun c => !isInsert c.op
    | _ => false
  pool w := w.remediationQueue.countP (targets r) + w.actionsLog.countP (reverses r)

/-- The executed row a rollback call is about to be given. -/
def aboutToRollback (c : SysConfig K) : SysAct K → Option (ActionRow K)
  | .step i x =>
      match c.threads[i]? with
      | some ⟨.rollback _ _, .op (.latestAction a .executed) _⟩ =>
          if x.fault = .none then c.world.latestAction x.tie a .executed else none
      | _ => none
  | _ => none

/-- The row a rollback call is about to be given was not reversed, and is not being reversed. -/
def rollsBackFresh (c : SysConfig K) (a : SysAct K) : Bool :=
  (aboutToRollback c a).all fun row => (reversalToken K row.id).load c = 0

/-- Each message was sent by a service, and is in the queue once and delivered once. -/
def deliversOnce (c : SysConfig K) : SysAct K → Bool
  | .env (.forge _) => false
  | .env (.redeliverRemediation _) => false
  | .step i ⟨.after _, _⟩ => !(System.next c i).any isPublish
  | _ => true

theorem noForgery_of_deliversOnce {c : SysConfig K} {a : SysAct K}
    (h : deliversOnce c a = true) : noForgery c a = true := by
  cases a with
  | env v =>
      cases v with
      | forge => cases h
      | _ => rfl
  | _ => rfl

/-- The call was let down so that a reversal is not known of: its answer is lost, or its row. -/
def losesReversal : Op K → Fault → Bool
  | .insertAction row, .before _ => row.result = .rolledBack
  | o, .after _ => isPatch o
  | _, _ => false

/-- A reversal that took effect is answered to the executor, and its row is not refused. -/
def reversalsRecorded (c : SysConfig K) : SysAct K → Bool
  | .step i x =>
      match c.threads[i]? with
      | some ⟨.execute m, .op o _⟩ => m.targetActionId.isNone || !losesReversal o x.fault
      | _ => true
  | _ => true

/-- A patch for a request to reverse the executed row `r`, which was accepted. -/
def reversedBy (r : Uuid) (e : SysEvent K) : Bool :=
  match e.tag with
  | .execute m => targets r m && isPatch e.op && e.call.isOk
  | _ => false

theorem reversedBy_iff {r : Uuid} {e : SysEvent K} :
    reversedBy r e = true ↔ ∃ m, e.tag = .execute m ∧ m.targetActionId = some r
      ∧ isPatch e.op = true ∧ e.call.isOk = true := by
  unfold reversedBy
  constructor
  · intro h
    split at h
    · rename_i m htag
      simp only [targets, Bool.and_eq_true, decide_eq_true_eq] at h
      exact ⟨m, htag, h.1.1, h.1.2, h.2⟩
    · cases h
  · intro hx
    obtain ⟨m, htag, hm, hpatch, hok⟩ := hx
    simp [htag, targets, hm, hpatch, hok]

theorem readsExecuted_iff {r : Uuid} {call : SysCall K} :
    readsExecuted r call = true ↔
      ∃ a row, call = ⟨.latestAction a .executed, .ok (some row)⟩ ∧ row.id = r := by
  constructor
  · intro h
    unfold readsExecuted at h
    split at h
    · exact ⟨_, _, rfl, by simpa using h⟩
    · cases h
  · intro hx
    obtain ⟨a, row, rfl, rfl⟩ := hx
    simp [readsExecuted]

theorem holds_cases {r : Uuid} {t : Thread (Op K) Op.Res Err (Tag K) Reply} {h : History K}
    (hh : (reversalToken K r).holds t h = true) :
    ((∃ user a, t.tag = .rollback user a) ∧ h.any (readsExecuted r) = true
        ∧ h.all (fun c => !(isPublish c.op && c.isOk)) = true)
      ∨ (∃ m, t.tag = .execute m ∧ targets r m = true) ∧ h.all (fun c => !isInsert c.op) = true := by
  obtain ⟨tag, prog⟩ := t
  simp only [reversalToken] at hh
  split at hh
  · rename_i heq
    cases heq
    exact Or.inl ⟨⟨_, _, rfl⟩, Bool.and_eq_true_iff.mp hh⟩
  · rename_i heq
    cases heq
    obtain ⟨h₁, h₂⟩ := Bool.and_eq_true_iff.mp hh
    exact Or.inr ⟨⟨_, rfl, h₁⟩, h₂⟩
  · cases hh

theorem holds_rollback {r : Uuid} {user : Api.User} {a : Uuid} {o : Op K}
    {k : Except Err o.Res → Py K Reply} {h : History K} (hread : h.any (readsExecuted r) = true)
    (hpub : h.all (fun c => !(isPublish c.op && c.isOk)) = true) :
    (reversalToken K r).holds ⟨.rollback user a, .op o k⟩ h = true := by
  simp only [reversalToken, hread, hpub, Bool.and_self]

theorem holds_execute {r : Uuid} {m : RemediationMessage} {o : Op K}
    {k : Except Err o.Res → Py K Reply} {h : History K} (hm : targets r m = true)
    (hins : h.all (fun c => !isInsert c.op) = true) :
    (reversalToken K r).holds ⟨.execute m, .op o k⟩ h = true := by
  simp only [reversalToken, hm, hins, Bool.and_self]

section

variable [Scalar K] {cfg : Settings} {c : SysConfig K}
variable {P : SysConfig K → SysAct K → Prop} {w : World K}

omit [Scalar K] in
/-- Whoever holds the token after a call held it before, unless the call read the row. -/
theorem held_before {r : Uuid} {tag : Tag K} {o : Op K} {k : Except Err o.Res → Py K Reply}
    {res : Except Err o.Res} {h : History K}
    (hafter : (reversalToken K r).holds ⟨tag, k res⟩ (⟨o, res⟩ :: h) = true) :
    (reversalToken K r).holds ⟨tag, .op o k⟩ h = true
      ∨ (∃ user a, tag = .rollback user a) ∧ readsExecuted r (⟨o, res⟩ : SysCall K) = true := by
  rcases holds_cases hafter with ⟨⟨user, a, htag⟩, hread, hpub⟩ | ⟨⟨m, htag, hm⟩, hins⟩
  · obtain rfl : tag = .rollback user a := htag
    rw [List.any_cons, Bool.or_eq_true] at hread
    rw [List.all_cons, Bool.and_eq_true] at hpub
    rcases hread with hread | hread
    · exact Or.inr ⟨⟨user, a, rfl⟩, hread⟩
    · exact Or.inl (holds_rollback hread hpub.2)
  · obtain rfl : tag = .execute m := htag
    rw [List.all_cons, Bool.and_eq_true] at hins
    exact Or.inl (holds_execute hm hins.2)

/-- Only a rollback call that has read the row, and published nothing yet, requests its reversal. -/
theorem held_at_publish {r : Uuid} {i : Nat} {tag : Tag K} {m : RemediationMessage}
    {k : Except Err Unit → Py K Reply} (hr : (system cfg).Run P w c)
    (ht : c.threads[i]? = some ⟨tag, .op (.basicPublish (.remediation m)) k⟩)
    (hm : targets r m = true) :
    (∃ user a, tag = .rollback user a)
      ∧ (reversalToken K r).holds ⟨tag, .op (.basicPublish (.remediation m)) k⟩ (hist c.trace i)
          = true := by
  have hcalls := calls_of_next hr ht
  generalize hist c.trace i = t at hcalls
  simp only [targets, decide_eq_true_eq] at hm
  cases published_by hcalls with
  | decision hd hmsg => rw [hmsg] at hm; cases hm
  | approve hd hmsg => rw [hmsg] at hm; obtain ⟨_, _, _⟩ := hd; cases hm
  | rollback hd hmsg hatt =>
      obtain ⟨row, _⟩ := hd
      have hid : row.id = r := by
        rw [hmsg] at hm
        exact Option.some.inj hm
      refine ⟨⟨_, _, rfl⟩, holds_rollback ?_ ?_⟩
      · cases hatt <;> simp [Api.dispatched, readsExecuted, hid]
      · cases hatt <;> simp [Api.dispatched, isPublish, Call.isOk]

/-- Only an executor thread that has written nothing yet, for a request to reverse the row, does. -/
theorem held_at_insert {r : Uuid} {i : Nat} {tag : Tag K} {row : ActionRow K}
    {k : Except Err Unit → Py K Reply} (hr : (system cfg).Run P (World.empty K) c)
    (ht : c.threads[i]? = some ⟨tag, .op (.insertAction row) k⟩) (hrev : reverses r row = true) :
    (∃ m, tag = .execute m) ∧ (reversalToken K r).holds ⟨tag, .op (.insertAction row) k⟩
      (hist c.trace i) = true := by
  have hcalls := calls_of_next hr ht
  simp only [reverses, Bool.and_eq_true, decide_eq_true_eq] at hrev
  obtain ⟨hres, href⟩ := hrev
  have hdone : Executor.executedResults.contains row.result = true := by
    rw [hres]
    rfl
  obtain ⟨m, req, id, now, h, res, extra, rfl, hp, rfl, htr, ha⟩ :=
    executor_of_inserted (inserted_by hcalls) (Or.inl hdone)
  refine ⟨⟨m, rfl⟩, holds_execute ?_ (all_not_insert ?_)⟩
  · obtain ⟨_, _, _, _, _, htarget⟩ := Executor.parseRequest_ok hp
    cases ha with
    | @reversed row h₁ call hrv _ =>
        obtain ⟨hl, _⟩ := hrv
        obtain ⟨hid, _⟩ := row_of_loaded hr (List.suffix_refl _) hl (i := i) fun d hd => by
          rw [htr]
          exact List.mem_cons_of_mem _ (List.mem_cons_of_mem _ (List.mem_cons_of_mem _ hd))
        have href' : row.id = r := Option.some.inj href
        simp only [targets, ← htarget, hid, href', decide_true]
    | _ => cases hres
  · rw [htr]
    exact .skip rfl (.skip rfl ha.unrecorded)

/-- A call that leaves the pool alone moves the token only by reading the row. -/
theorem conserves_of_pool_eq (hP : ∀ c a, P c a → rollsBackFresh c a = true) {r : Uuid} {i : Nat}
    {x : Choice} {tag : Tag K} {o : Op K} {k : Except Err o.Res → Py K Reply}
    {res : Except Err o.Res} {w' : World K} (hp : P c (.step i x))
    (ht : c.threads[i]? = some ⟨tag, .op o k⟩) (hx : exec c.world o x = (res, w'))
    (hpool : (reversalToken K r).pool w' = (reversalToken K r).pool c.world) :
    System.Conserves ((reversalToken K r).load c)
      (((reversalToken K r).holds ⟨tag, .op o k⟩ (hist c.trace i)).toNat
        + (reversalToken K r).pool c.world)
      (((reversalToken K r).holds ⟨tag, k res⟩ (⟨o, res⟩ :: hist c.trace i)).toNat
        + (reversalToken K r).pool w') := by
  rw [hpool]
  cases hafter : (reversalToken K r).holds ⟨tag, k res⟩ (⟨o, res⟩ :: hist c.trace i) with
  | false => exact Or.inl (by simp)
  | true =>
      rcases held_before hafter with hbefore | ⟨⟨user, a, rfl⟩, hread⟩
      · exact Or.inl (by rw [hbefore])
      · obtain ⟨a', row, heq, hid⟩ := readsExecuted_iff.mp hread
        cases heq
        have hfresh := hP c _ hp
        obtain ⟨hf, hlatest⟩ := exec_latestAction_eq (congrArg Prod.fst hx)
        simp only [rollsBackFresh, aboutToRollback, ht, hf, ↓reduceIte, hlatest, Option.all_some,
          decide_eq_true_eq, hid] at hfresh
        have hpool0 : (reversalToken K r).pool c.world ≤ (reversalToken K r).load c :=
          Nat.le_add_left _ _
        refine Or.inr ⟨hfresh, ?_⟩
        simp only [Bool.toNat_true]
        omega

/-- A publish that reached the queue was answered, where a message is only sent once. -/
theorem publish_answered (hP : ∀ c a, P c a → deliversOnce c a = true) {i : Nat} {x : Choice}
    {tag : Tag K} {m : RemediationMessage} {k : Except Err Unit → Py K Reply}
    {res : Except Err Unit} {w' : World K} (hp : P c (.step i x))
    (ht : c.threads[i]? = some ⟨tag, .op (.basicPublish (.remediation m)) k⟩)
    (hx : exec c.world (.basicPublish (.remediation m)) x = (res, w'))
    (hq : w'.remediationQueue = c.world.remediationQueue ++ [m]) :
    Call.isOk (⟨.basicPublish (.remediation m), res⟩ : SysCall K) = true := by
  obtain ⟨fault, tie⟩ := x
  cases fault with
  | none =>
      have hres : res = .ok () := (congrArg Prod.fst hx).symm
      rw [hres]
      rfl
  | before e =>
      have hw : c.world = w' := congrArg Prod.snd hx
      rw [← hw] at hq
      simp at hq
  | after e =>
      have := hP c _ hp
      simp [deliversOnce, System.next_of_thread ht, isPublish] at this

theorem reversal_conserves
    (hP : ∀ c a, P c a → deliversOnce c a = true ∧ rollsBackFresh c a = true) (r : Uuid) {i : Nat}
    {x : Choice} {tag : Tag K} {o : Op K} {k : Except Err o.Res → Py K Reply}
    {res : Except Err o.Res} {w' : World K} (hr : (system cfg).Run P (World.empty K) c)
    (hp : P c (.step i x)) (ht : c.threads[i]? = some ⟨tag, .op o k⟩)
    (hx : exec c.world o x = (res, w')) :
    System.Conserves ((reversalToken K r).load c)
      (((reversalToken K r).holds ⟨tag, .op o k⟩ (hist c.trace i)).toNat
        + (reversalToken K r).pool c.world)
      (((reversalToken K r).holds ⟨tag, k res⟩ (⟨o, res⟩ :: hist c.trace i)).toNat
        + (reversalToken K r).pool w') := by
  have hsame := conserves_of_pool_eq (fun c a hca => (hP c a hca).2) (r := r) hp ht hx
  have hch := changes_of_exec hx
  rcases hch.actionsLog with hlog | ⟨row, rfl, _, hlog⟩
  · rcases hch.remediationQueue with hq | ⟨m, rfl, hq⟩
    · exact hsame (by simp only [reversalToken, hlog, hq])
    · cases hm : targets r m with
      | false => exact hsame (by simp [reversalToken, hlog, hq, hm])
      | true =>
          -- the token goes from the rollback call into the queue
          obtain ⟨⟨user, a, rfl⟩, hbefore⟩ := held_at_publish hr ht hm
          have hok := publish_answered (fun c a hca => (hP c a hca).1) hp ht hx hq
          have hafter : (reversalToken K r).holds ⟨.rollback user a, k res⟩
              (⟨.basicPublish (.remediation m), res⟩ :: hist c.trace i) = false := by
            by_contra hne
            rcases holds_cases (Bool.not_eq_false _ ▸ hne) with ⟨_, _, hpub⟩ | ⟨⟨_, htag, _⟩, _⟩
            · simp [isPublish, hok] at hpub
            · cases htag
          left
          rw [hbefore, hafter]
          simp only [reversalToken, hlog, hq, List.countP_append, List.countP_singleton, hm,
            ↓reduceIte, Bool.toNat_true, Bool.toNat_false]
          omega
  · have hq : w'.remediationQueue = c.world.remediationQueue := by
      rcases hch.remediationQueue with hq | ⟨m, hop, _⟩
      · exact hq
      · cases hop
    cases hrev : reverses r row with
    | false => exact hsame (by simp [reversalToken, hlog, hq, hrev])
    | true =>
        -- the token goes from the executor into the ledger
        obtain ⟨⟨m, rfl⟩, hbefore⟩ := held_at_insert hr ht hrev
        have hafter : (reversalToken K r).holds ⟨.execute m, k res⟩
            (⟨.insertAction row, res⟩ :: hist c.trace i) = false := by
          by_contra hne
          rcases holds_cases (Bool.not_eq_false _ ▸ hne) with ⟨⟨_, _, htag⟩, _⟩ | ⟨_, hins⟩
          · cases htag
          · simp [isInsert] at hins
        left
        rw [hbefore, hafter]
        simp only [reversalToken, hlog, hq, List.countP_append, List.countP_singleton, hrev,
          ↓reduceIte, Bool.toNat_true, Bool.toNat_false]
        omega

/-- A delivery takes its message, and the token with it, off the queue. -/
theorem reversal_conserves_start (r : Uuid) {x : Start K} {v w' : World K} {n : Nat} {tag : Tag K}
    {p : Py K Reply} (hs : (system cfg).start v n x = some (w', tag, p)) :
    ((reversalToken K r).holds ⟨tag, p⟩ []).toNat + (reversalToken K r).pool w'
      ≤ (reversalToken K r).pool v := by
  obtain ⟨hst, _⟩ := start_starts hs
  rcases hst.remediation with ⟨m, k, rfl, hk, hq, _⟩ | ⟨hne, hq, _⟩
  · obtain ⟨hlt, rfl⟩ := List.getElem?_eq_some_iff.mp hk
    -- the message that is taken counted in the queue
    have hcount : v.remediationQueue.countP (targets r) =
        (v.remediationQueue.eraseIdx k).countP (targets r)
          + (targets r v.remediationQueue[k]).toNat := by
      rw [← (List.getElem_cons_eraseIdx_perm hlt).countP_eq, List.countP_cons]
      cases targets r v.remediationQueue[k] <;> rfl
    have hle : ((reversalToken K r).holds ⟨.execute v.remediationQueue[k], p⟩ []).toNat
        ≤ (targets r v.remediationQueue[k]).toNat := by
      cases hh : (reversalToken K r).holds ⟨.execute v.remediationQueue[k], p⟩ [] with
      | false => exact Nat.zero_le _
      | true =>
          rcases holds_cases hh with ⟨_, hread, _⟩ | ⟨⟨m, htag, hm⟩, _⟩
          · cases hread
          · cases htag
            rw [hm]
    simp only [reversalToken, hq, hst.actionsLog] at hle ⊢
    omega
  · have hnew : (reversalToken K r).holds ⟨tag, p⟩ [] = false := by
      by_contra h
      rcases holds_cases (Bool.not_eq_false _ ▸ h) with ⟨_, hread, _⟩ | ⟨⟨m, htag, _⟩, _⟩
      · cases hread
      · exact hne m htag
    rw [hnew]
    simp only [reversalToken, hq, hst.actionsLog, Bool.toNat_false]
    omega

theorem reversal_load (hP : ∀ c a, P c a → deliversOnce c a = true ∧ rollsBackFresh c a = true)
    (h : (system cfg).Run P (World.empty K) c) (r : Uuid) : (reversalToken K r).load c ≤ 1 := by
  refine h.load_le_one (Nat.zero_le _) (fun _ _ hs => Or.inl (reversal_conserves_start r hs))
    (reversal_conserves hP r) ?_
  intro c e _ hp
  cases e with
  | forge m => cases (hP _ _ hp).1
  | redeliverRemediation n => cases (hP _ _ hp).1
  | _ => exact le_refl _

/-- A patch for a request to reverse `r` is sent by a thread that holds the token. -/
theorem held_at_patch (h : (system cfg).Run P (World.empty K) c) {i : Nat} {r : Uuid}
    {m : RemediationMessage} {o : Op K} {k : Except Err o.Res → Py K Reply}
    (ht : c.threads[i]? = some ⟨.execute m, .op o k⟩) (ho : isPatch o = true)
    (hm : m.targetActionId = some r) : (reversalToken K r).heldBy c i = true := by
  have hidle := idle_before_patch ho (calls_of_next h ht)
  rw [Token.heldBy, ht, Option.any_some]
  exact holds_execute (by simp [targets, hm]) (all_not_insert hidle.unrecorded)

/-! ## What an accepted reversal leaves behind -/

/-- Only a rollback names a row to reverse. -/
theorem rollback_of_target (hP : ∀ c a, P c a → noForgery c a = true)
    (h : (system cfg).Run P (World.empty K) c) {m : RemediationMessage} (hm : Requested c.world m)
    {r : Uuid} (htarget : m.targetActionId = some r) : m.action = some "rollback" := by
  obtain ⟨e, pre, _, hpub⟩ := published_request hP h hm
  generalize e.tag = tag at hpub
  generalize hist pre e.tid = t at hpub
  cases hpub with
  | decision _ hmsg =>
      subst hmsg
      cases htarget
  | approve happ hmsg =>
      obtain ⟨_, _, _⟩ := happ
      subst hmsg
      cases htarget
  | rollback hrev hmsg =>
      obtain ⟨_, _⟩ := hrev
      subst hmsg
      rfl

/-- What a thread records after an accepted reversal is that reversal. -/
theorem reverses_of_inserted (hP : ∀ c a, P c a → noForgery c a = true)
    (h : (system cfg).Run P (World.empty K) c) {r : Uuid} {e ins : SysEvent K}
    {pre₁ pre : List (SysEvent K)} (he : e :: pre₁ <:+ c.trace) (hrev : reversedBy r e = true)
    (hins : ins :: pre <:+ c.trace) (htid : ins.tid = e.tid) {row : ActionRow K}
    (hop : ins.op = .insertAction row) :
    reverses r row = true ∧ ∃ req t now id res extra m, ins.tag = .execute m
      ∧ Executor.parseRequest m = .ok req ∧ Executor.Answers cfg.executor req t res extra
      ∧ hist pre ins.tid = ⟨.uuid4, .ok id⟩ :: ⟨.now, .ok now⟩ :: t
      ∧ row = Executor.outcomeRow cfg.executor id now req res extra := by
  obtain ⟨m, htag, hm, hpatch, _⟩ := reversedBy_iff.mp hrev
  -- the patch came before the row: nothing is recorded before a patch
  have hpre : e :: pre₁ <:+ pre := by
    rcases suffix_cases he hins with ⟨rfl, _⟩ | hsuf | hsuf
    · rw [hop] at hpatch
      cases hpatch
    · exact hsuf
    · have hidle := (idle_before_patch hpatch (calls_of_suffix h he)).unrecorded ins.call
        (mem_hist.mpr ⟨ins, hsuf.subset (List.mem_cons_self ..), htid, rfl⟩) row
      exact absurd hop hidle
  obtain ⟨t', ht', htag'⟩ := h.tag_of_mem (he.subset (List.mem_cons_self ..))
  have hinstag : ins.tag = .execute m := (h.tag_eq (hins.subset (List.mem_cons_self ..))
    (he.subset (List.mem_cons_self ..)) htid).trans htag
  have hroll := rollback_of_target hP h ((delivered_of_thread h ht').1 m (htag'.trans htag)) hm
  have hcalls := calls_of_suffix h hins
  rw [hop, hinstag] at hcalls
  have hmem : e.call ∈ hist pre ins.tid :=
    mem_hist.mpr ⟨e, hpre.subset (List.mem_cons_self ..), htid.symm, rfl⟩
  generalize hh : hist pre ins.tid = u at hcalls hmem
  cases inserted_by hcalls with
  | @execute _ req t now id res extra hp ha =>
      refine ⟨?_, req, t, now, id, res, extra, m, hinstag, hp, ha, rfl, rfl⟩
      obtain ⟨_, _, haction, _, _, htarget⟩ := Executor.parseRequest_ok hp
      have hcall : e.call ∈ t := by
        rcases List.mem_cons.mp hmem with heq | hmem
        · rw [show e.op = .uuid4 from congrArg Call.op heq] at hpatch
          cases hpatch
        · rcases List.mem_cons.mp hmem with heq | hmem
          · rw [show e.op = .now from congrArg Call.op heq] at hpatch
            cases hpatch
          · exact hmem
      rcases ha.patched_or_idle with ⟨_, _, _, _, _, _, hres⟩ | ⟨hidle, _⟩
      · rcases hres with ⟨rfl, hne⟩ | ⟨rfl, _⟩
        · exact absurd (Option.some.inj (haction.symm.trans hroll)) hne
        · cases ha with
          | reversed hr =>
              obtain ⟨hl, _⟩ := hr
              obtain ⟨hid, _⟩ := row_of_loaded h ((List.suffix_cons ins pre).trans hins) hl
                (i := ins.tid) fun d hd => by
                  rw [hh]
                  exact List.mem_cons_of_mem _ (List.mem_cons_of_mem _ (List.mem_cons_of_mem _ hd))
              have hid' : some _ = some r := hid.symm.trans (htarget.trans hm)
              simpa [reverses, Executor.outcomeRow] using Option.some.inj hid'
      · exact absurd hidle (not_idle_of_patch hpatch hcall)

/-- The row of an accepted reversal is written. -/
theorem recorded_of_inserted
    (hP : ∀ c a, P c a → noForgery c a = true ∧ reversalsRecorded c a = true)
    (h : (system cfg).Run P (World.empty K) c) {r : Uuid} {e ins : SysEvent K} (he : e ∈ c.trace)
    (hrev : reversedBy r e = true) (hins : ins ∈ c.trace) (htid : ins.tid = e.tid)
    {row : ActionRow K} (hop : ins.op = .insertAction row) :
    0 < c.world.actionsLog.countP (reverses r) := by
  have hforge : ∀ c a, P c a → noForgery c a = true := fun c a hp => (hP c a hp).1
  obtain ⟨pre₁, hsuf₁⟩ := exists_suffix_of_mem he
  obtain ⟨pre, hsuf⟩ := exists_suffix_of_mem hins
  obtain ⟨hrow, req, t, now, id, res, extra, m', htag', hp, ha, hh, rfl⟩ :=
    reverses_of_inserted hforge h hsuf₁ hrev hsuf htid hop
  have hadm := admits_of_insert h rfl hsuf hop (outcome_resolves hforge h hsuf htag' hp ha hh)
  obtain ⟨m, htag, hm, _⟩ := reversedBy_iff.mp hrev
  obtain rfl : m' = m :=
    Tag.execute.inj (htag'.symm.trans ((h.tag_eq hins he htid).trans htag))
  obtain ⟨c₀, x, k, _, hpx, _, _, ht, hx⟩ := h.origin hsuf
  obtain ⟨tid, tag, op, answer, before, after⟩ := ins
  obtain rfl : tag = .execute m' := htag'
  obtain rfl : op = .insertAction (Executor.outcomeRow cfg.executor id now req res extra) := hop
  have hlog : after.actionsLog = before.actionsLog
      ++ [Executor.outcomeRow cfg.executor id now req res extra] := by
    have hkept := (hP c₀ _ hpx).2
    dsimp only at ht hadm
    simp only [reversalsRecorded, ht, hm, Option.isNone_some, Bool.false_or] at hkept
    have hres := (Bool.and_eq_true_iff.mp hrow).1
    have hafter := congrArg Prod.snd hx
    simp only [system, exec, World.insertAction, hadm, ↓reduceIte] at hafter
    rw [← hafter]
    cases hf : x.fault with
    | before err =>
        rw [hf] at hkept
        simp only [losesReversal, hres] at hkept
        cases hkept
    | _ => rfl
  have hmem : Executor.outcomeRow cfg.executor id now req res extra ∈ after.actionsLog := by
    rw [hlog]
    exact List.mem_append_right _ (List.mem_singleton_self _)
  exact List.countP_pos_iff.mpr ⟨_, (h.le_of_mem (grows cfg) hins).actionsLog.subset hmem, hrow⟩

/-- A thread that ends after an accepted patch has recorded something. -/
theorem inserted_of_settled {m : RemediationMessage} {t : History K}
    (h : Settled .executorActions (Executor.Ends cfg.executor m) t) {call : SysCall K}
    (hcall : call ∈ t) (hpatch : isPatch call.op = true) (hok : call.isOk = true) :
    ∃ d ∈ t, isInsert d.op = true := by
  obtain @⟨u, r, ack, res, hends, _⟩ := h
  have hacts := acts_of_isPatch hpatch
  have hu : call ∈ u := by
    rcases List.mem_cons.mp hcall with rfl | hu
    · cases hpatch
    · exact hu
  have hidle : ∀ {v : History K}, Idle v → call ∉ v := fun hv hmem => by
    have := hv call hmem
    rw [hacts] at this
    cases this
  cases hends with
  | malformed => cases hu
  | noTarget => cases hu
  | badReference _ hl => exact absurd hu (hidle hl.idle)
  | raised hv =>
      -- the call that raised was not accepted, and before it nothing was done
      rcases List.mem_cons.mp hu with rfl | hu
      · cases hok
      · exact absurd hu (hidle hv)
  | recorded => exact ⟨_, List.mem_cons_of_mem _ (List.mem_cons_self ..), rfl⟩

/-- **After an accepted reversal its thread holds the token, or the ledger tells of it.** -/
theorem held_or_recorded
    (hP : ∀ c a, P c a → noForgery c a = true ∧ reversalsRecorded c a = true)
    (h : (system cfg).Run P (World.empty K) c) {r : Uuid} {e : SysEvent K} (he : e ∈ c.trace)
    (hrev : reversedBy r e = true) :
    (reversalToken K r).heldBy c e.tid = true ∨ 0 < c.world.actionsLog.countP (reverses r) := by
  obtain ⟨m, htag, hm, hpatch, hok⟩ := reversedBy_iff.mp hrev
  obtain ⟨⟨tag, p⟩, ht, htag'⟩ := h.tag_of_mem he
  obtain rfl : tag = .execute m := htag'.trans htag
  have hcall : e.call ∈ hist c.trace e.tid := mem_hist.mpr ⟨e, he, rfl, rfl⟩
  cases hins : (hist c.trace e.tid).all fun call => !isInsert call.op with
  | true =>
      left
      rw [Token.heldBy, ht, Option.any_some]
      cases hdone : p.isDone with
      | true =>
          obtain ⟨_, hends⟩ := (thread_obeys h ht).of_isDone hdone
          obtain ⟨d, hd, hinsert⟩ := inserted_of_settled hends hcall hpatch hok
          have := List.all_eq_true.mp hins d hd
          rw [hinsert] at this
          cases this
      | false =>
          cases p with
          | op o k => exact holds_execute (by simp [targets, hm]) hins
          | _ => cases hdone
  | false =>
      right
      obtain ⟨d, hd, hinsert⟩ := List.all_eq_false.mp hins
      obtain ⟨ins, hmem, htid, rfl⟩ := mem_hist.mp hd
      cases hop : ins.op with
      | insertAction row => exact recorded_of_inserted hP h he hrev hmem htid hop
      | _ => simp [Event.call, hop, isInsert] at hinsert

/-- **Whoever is about to patch for `r` is the first whose patch can be accepted.** -/
theorem unreversed_at_patch
    (hP : ∀ c a, P c a → noForgery c a = true ∧ reversalsRecorded c a = true)
    (h : (system cfg).Run P (World.empty K) c) {r : Uuid} (hload : (reversalToken K r).load c ≤ 1)
    {i : Nat} {m : RemediationMessage} {o : Op K} {k : Except Err o.Res → Py K Reply}
    (ht : c.threads[i]? = some ⟨.execute m, .op o k⟩) (ho : isPatch o = true)
    (hm : m.targetActionId = some r) :
    c.world.actionsLog.countP (reverses r) = 0 ∧ c.trace.countP (reversedBy r) = 0 := by
  have hheld := held_at_patch h ht ho hm
  have hone := Token.one_le_load hheld
  have hrow : c.world.actionsLog.countP (reverses r) ≤ (reversalToken K r).pool c.world :=
    Nat.le_add_left _ _
  have hnone : c.world.actionsLog.countP (reverses r) = 0 := by omega
  refine ⟨hnone, List.countP_eq_zero.mpr fun e he hrev => ?_⟩
  rcases held_or_recorded hP h he hrev with hother | hpos
  · by_cases hi : i = e.tid
    -- the thread itself has only read so far
    · obtain ⟨_, _, _, hpatch, _⟩ := reversedBy_iff.mp hrev
      exact not_idle_of_patch hpatch (mem_hist.mpr ⟨e, he, hi.symm, rfl⟩)
        (idle_before_patch ho (calls_of_next h ht))
    · have htwo := Token.two_le_load hi hheld hother
      omega
  · omega

/-- A patch that was not accepted changed nothing, where no answer is lost. -/
theorem cluster_of_refused (hP : ∀ c a, P c a → reversalsRecorded c a = true) {i : Nat} {x : Choice}
    {m : RemediationMessage} {r : Uuid} {o : Op K} {k : Except Err o.Res → Py K Reply}
    {res : Except Err o.Res} {w' : World K} (hp : P c (.step i x))
    (ht : c.threads[i]? = some ⟨.execute m, .op o k⟩) (hm : m.targetActionId = some r)
    (ho : isPatch o = true) (hx : exec c.world o x = (res, w'))
    (hrefused : Call.isOk (⟨o, res⟩ : SysCall K) = false) : w'.cluster = c.world.cluster := by
  have hkept := hP c _ hp
  simp only [reversalsRecorded, ht, hm, Option.isNone_some, Bool.false_or] at hkept
  have hlost : ∀ e, x.fault ≠ .after e := by
    intro e hf
    have hloses : losesReversal o x.fault = true := by
      rw [hf]
      cases o <;> first | rfl | cases ho
    rw [hloses] at hkept
    cases hkept
  cases res with
  | ok a => cases hrefused
  | error e =>
      have hw := exec_patch_raised ho hlost (congrArg Prod.fst hx)
      rwa [hx] at hw

/--
**Where rollback calls only read fresh rows, each executed row is reversed once.**

In every state of such a run at most one row records its reversal, and at most one
patch for a request to reverse it was accepted. Every patch for such a request was
sent while no row recorded a reversal and none had been accepted, and changed nothing
unless it was accepted itself.
-/
theorem reversed_at_most_once
    (h : (system cfg).Run (fun c a => deliversOnce c a && rollsBackFresh c a
      && reversalsRecorded c a) (World.empty K) c) (r : Uuid) :
    c.world.actionsLog.countP (reverses r) ≤ 1
      ∧ c.trace.countP (reversedBy r) ≤ 1
      ∧ ∀ e pre m, e :: pre <:+ c.trace → e.tag = .execute m → m.targetActionId = some r →
        isPatch e.op = true →
          e.before.actionsLog.countP (reverses r) = 0 ∧ pre.countP (reversedBy r) = 0
            ∧ (e.call.isOk = false → e.after.cluster = e.before.cluster) := by
  have hsafe : ∀ (c : SysConfig K) a, (deliversOnce c a && rollsBackFresh c a
      && reversalsRecorded c a) = true → deliversOnce c a = true ∧ rollsBackFresh c a = true := by
    intro c a hp
    exact Bool.and_eq_true_iff.mp (Bool.and_eq_true_iff.mp hp).1
  have hkept : ∀ (c : SysConfig K) a, (deliversOnce c a && rollsBackFresh c a
      && reversalsRecorded c a) = true → noForgery c a = true ∧ reversalsRecorded c a = true := by
    intro c a hp
    exact ⟨noForgery_of_deliversOnce (hsafe c a hp).1, (Bool.and_eq_true_iff.mp hp).2⟩
  have hload : ∀ {c}, (system cfg).Run (fun c a => deliversOnce c a && rollsBackFresh c a
      && reversalsRecorded c a) (World.empty K) c → (reversalToken K r).load c ≤ 1 :=
    fun hrun => reversal_load hsafe hrun r
  have hpatches : ∀ e pre m, e :: pre <:+ c.trace → e.tag = .execute m →
      m.targetActionId = some r → isPatch e.op = true →
        e.before.actionsLog.countP (reverses r) = 0 ∧ pre.countP (reversedBy r) = 0
          ∧ (e.call.isOk = false → e.after.cluster = e.before.cluster) := by
    intro e pre m he htag hm hpatch
    obtain ⟨c₀, x, k, hr, hp, hw, htr, ht, hx⟩ := h.origin he
    rw [htag] at ht
    rw [← hw] at hx
    obtain ⟨hrows, hevents⟩ := unreversed_at_patch hkept hr (hload hr) ht hpatch hm
    rw [hw] at hrows
    rw [htr] at hevents
    refine ⟨hrows, hevents, fun hrefused => ?_⟩
    rw [← hw]
    exact cluster_of_refused (fun c a hca => (hkept c a hca).2) hp ht hm hpatch hx hrefused
  refine ⟨?_, countP_le_one_of_suffix fun e pre he hrev => ?_, hpatches⟩
  · exact le_trans (le_trans (Nat.le_add_left _ _) (Nat.le_add_left _ _)) (hload h)
  · obtain ⟨m, htag, hm, hpatch, _⟩ := reversedBy_iff.mp hrev
    exact (hpatches e pre m he htag hm hpatch).2.1

end

namespace Scenario

/-- A rollback of the throttle, from the request to its outcome. -/
def rollback (request execution : Nat) : List (SysAct ℚ) :=
  [.start (.rollback sre 1)] ++ calls request 5 ++ [.start (.remediation 0)] ++ calls execution 7

/-- The request is to reverse `r`. -/
def asks (r : Uuid) : Tag ℚ → Bool
  | .execute m => m.targetActionId = some r
  | _ => false

theorem of_asks {r : Uuid} {tag : Tag ℚ} (h : asks r tag = true) :
    ∃ m, tag = .execute m ∧ m.targetActionId = some r := by
  cases tag with
  | execute m => exact ⟨m, rfl, of_decide_eq_true h⟩
  | _ => cases h

end Scenario

open Scenario in
/-- One rollback of the executed row 4. -/
theorem reversed_at_most_once_restored :
    ∃ c : SysConfig ℚ, c.world.actionsLog.countP (reverses 4) = 1
      ∧ c.trace.countP (reversedBy 4) = 1
      ∧ c.trace.countP (reversedBy 4) ≤ 1
      ∧ ∀ e pre m, e :: pre <:+ c.trace → e.tag = .execute m → m.targetActionId = some 4 →
        isPatch e.op = true →
          e.before.actionsLog.countP (reverses 4) = 0 ∧ pre.countP (reversedBy 4) = 0
            ∧ (e.call.isOk = false → e.after.cluster = e.before.cluster) := by
  obtain ⟨c, hrun, hone⟩ := System.exists_run (S := system settings) (w := World.empty ℚ)
    (p := fun c a => deliversOnce c a && rollsBackFresh c a && reversalsRecorded c a)
    (l := executed ++ rollback 13 14)
    (q := fun c => c.world.actionsLog.countP (reverses 4) = 1
      && c.trace.countP (reversedBy 4) = 1) (by decide +kernel)
  simp only [Bool.and_eq_true, decide_eq_true_eq] at hone
  exact ⟨c, hone.1, hone.2, (reversed_at_most_once hrun 4).2⟩

open Scenario in
/--
**A second rollback call reverses the same executed row again.**

The first reversal is complete and in the ledger; every message was delivered once, and
no answer was lost.
-/
theorem reversed_twice :
    ∃ c : SysConfig ℚ, (system settings).Run (fun c a => deliversOnce c a && reversalsRecorded c a)
        (World.empty ℚ) c
      ∧ c.world.actionsLog.countP (reverses 4) = 2
      ∧ ∃ e pre m, e :: pre <:+ c.trace ∧ e.tag = .execute m ∧ m.targetActionId = some 4
        ∧ isPatch e.op = true ∧ e.before.actionsLog.countP (reverses 4) = 1 := by
  obtain ⟨c, hrun, htwo⟩ := System.exists_run (S := system settings) (w := World.empty ℚ)
    (p := fun c a => deliversOnce c a && reversalsRecorded c a)
    (l := executed ++ rollback 13 14 ++ rollback 15 16)
    (q := fun c => c.world.actionsLog.countP (reverses 4) = 2
      && c.trace.any fun e =>
        isPatch e.op && e.before.actionsLog.countP (reverses 4) = 1 && asks 4 e.tag)
    (by decide +kernel)
  simp only [Bool.and_eq_true, decide_eq_true_eq, List.any_eq_true] at htwo
  obtain ⟨hcount, e, he, ⟨hpatch, hone⟩, hasks⟩ := htwo
  obtain ⟨post, pre, hsplit⟩ := List.append_of_mem he
  obtain ⟨m, htag, hm⟩ := of_asks hasks
  exact ⟨c, hrun, hcount, e, pre, m, ⟨post, hsplit.symm⟩, htag, hm, hpatch, hone⟩

end HyperTrace.Proof
