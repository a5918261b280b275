import HyperTrace.Effect.Token
import HyperTrace.Proof.Floor

/-!
# Approving a pending action

The ledger is append-only, so a pending row is still there after it was approved,
and `approveAction` looks for nothing else: a second click finds the same row and
dispatches it again. What is true is that the calls are harmless as long as they
keep out of each other's way. The right to answer a pending row is a token, taken
by reading the row and spent by writing the dispatch. It is handed out twice
exactly when an approve call reads a row that was already answered, or that
another call still under way has read.
-/

namespace HyperTrace.Proof

open HyperTrace Effect

variable {K : Type}

/-- The row dispatches the pending row `p`. -/
def answers (p : Uuid) (row : ActionRow K) : Bool :=
  row.result = .dispatched && row.parentActionId = some p && row.rollbackRef = none

/-- The call read the pending row `p`. -/
def readsPending (p : Uuid) : SysCall K → Bool
  | ⟨.latestAction _ .pendingApproval, .ok (some row)⟩ => ActionRow.id row = p
  | _ => false

/-- An approve call under way holds the row it has read until it tries to write its dispatch. -/
def approvalToken (K : Type) (p : Uuid) :
    Token (Op K) Op.Res Err (World K) (Tag K) Reply where
  holds t h :=
    match t with
    | ⟨.approve _ _, .op _ _⟩ => h.any (readsPending p) && h.all fun c => !isInsert c.op
    | _ => false
  pool w := w.actionsLog.countP (answers p)

/-- The pending row an approve call is about to be given. -/
def aboutToApprove (c : SysConfig K) : SysAct K → Option (ActionRow K)
  | .step i x =>
      match c.threads[i]? with
      | some ⟨.approve _ _, .op (.latestAction a .pendingApproval) _⟩ =>
          if x.fault = .none then c.world.latestAction x.tie a .pendingApproval else none
      | _ => none
  | _ => none

/-- Nobody has answered the row an approve call is about to be given, and nobody is about to. -/
def approvesFresh (c : SysConfig K) (a : SysAct K) : Bool :=
  (aboutToApprove c a).all fun row => (approvalToken K row.id).load c = 0

theorem readsPending_iff {p : Uuid} {call : SysCall K} :
    readsPending p call = true ↔
      ∃ a row, call = ⟨.latestAction a .pendingApproval, .ok (some row)⟩ ∧ row.id = p := by
  constructor
  · intro h
    unfold readsPending at h
    split at h
    · exact ⟨_, _, rfl, by simpa using h⟩
    · cases h
  · intro hx
    obtain ⟨a, row, rfl, rfl⟩ := hx
    simp [readsPending]

theorem of_holds {p : Uuid} {t : Thread (Op K) Op.Res Err (Tag K) Reply} {h : History K}
    (hh : (approvalToken K p).holds t h = true) :
    (∃ user a, t.tag = .approve user a) ∧ h.any (readsPending p) = true
      ∧ h.all (fun c => !isInsert c.op) = true := by
  obtain ⟨tag, prog⟩ := t
  simp only [approvalToken] at hh
  split at hh
  · rename_i heq
    cases heq
    exact ⟨⟨_, _, rfl⟩, Bool.and_eq_true_iff.mp hh⟩
  · cases hh

section

variable [Scalar K] {cfg : Settings} {c : SysConfig K}
variable {P : SysConfig K → SysAct K → Prop} {w : World K}

/-- **Only an approve call that has read a pending row, and written nothing yet, answers it.** -/
theorem answers_of_calls {tag : Tag K} {h : History K} {row : ActionRow K} {p : Uuid}
    (hcalls : Calls cfg tag h (.insertAction row)) (hans : answers p row = true) :
    (∃ user a, tag = .approve user a) ∧ h.any (readsPending p) = true
      ∧ h.all (fun c => !isInsert c.op) = true := by
  simp only [answers, Bool.and_eq_true, decide_eq_true_eq] at hans
  obtain ⟨⟨hres, hparent⟩, href⟩ := hans
  -- by who may write a row: all but an approve call lack the parent or the result
  cases inserted_by hcalls with
  | decision hd => cases hparent
  | approve hmay =>
      cases hmay with
      | read ho => cases ho
      | fail => cases hres
      | insert hd =>
          obtain ⟨row, service, _⟩ := hd
          have hid : row.id = p := Option.some.inj hparent
          refine ⟨⟨_, _, rfl⟩, ?_, rfl⟩
          simp [readsPending, hid]
  | rollback hmay =>
      cases hmay with
      | read ho => cases ho
      | fail => cases hres
      | insert hd => obtain ⟨row, _⟩ := hd; cases href
  | execute _ ha => cases ha <;> cases hres

/-- **Tokens are conserved, but where a row is read that nobody has or had a token for.** -/
theorem approval_conserves (hP : ∀ c a, P c a → approvesFresh c a = true) (p : Uuid)
    {i : Nat} {x : Choice} {tag : Tag K} {o : Op K} {k : Except Err o.Res → Py K Reply}
    {r : Except Err o.Res} {w' : World K} (hr : (system cfg).Run P w c) (hp : P c (.step i x))
    (ht : c.threads[i]? = some ⟨tag, .op o k⟩) (hx : exec c.world o x = (r, w')) :
    System.Conserves ((approvalToken K p).load c)
      (((approvalToken K p).holds ⟨tag, .op o k⟩ (hist c.trace i)).toNat
        + (approvalToken K p).pool c.world)
      (((approvalToken K p).holds ⟨tag, k r⟩ (⟨o, r⟩ :: hist c.trace i)).toNat
        + (approvalToken K p).pool w') := by
  -- split on the ledger: a call that leaves it alone, or the insert that answers
  rcases (changes_of_exec hx).actionsLog with hsame | ⟨row, rfl, _, happ⟩
  · have hpool : (approvalToken K p).pool w' = (approvalToken K p).pool c.world := by
      simp only [approvalToken, hsame]
    rw [hpool]
    cases hafter : (approvalToken K p).holds ⟨tag, k r⟩ (⟨o, r⟩ :: hist c.trace i) with
    | false => exact Or.inl (by simp)
    | true =>
        obtain ⟨⟨user, a, rfl⟩, hread, hins⟩ := of_holds hafter
        rw [List.any_cons, Bool.or_eq_true] at hread
        rw [List.all_cons, Bool.and_eq_true] at hins
        rcases hread with hread | hread
        · -- the row is being read: nobody may hold it, and nobody may have answered it
          obtain ⟨a', row, heq, hid⟩ := readsPending_iff.mp hread
          cases heq
          have hfresh := hP c _ hp
          obtain ⟨hf, hlatest⟩ := exec_latestAction_eq (congrArg Prod.fst hx)
          simp only [approvesFresh, aboutToApprove, ht, hf, ↓reduceIte, hlatest, Option.all_some,
            decide_eq_true_eq, hid] at hfresh
          refine Or.inr ⟨hfresh, ?_⟩
          have hpool0 : (approvalToken K p).pool c.world ≤ (approvalToken K p).load c :=
            Nat.le_add_left _ _
          simp only [Bool.toNat_true]
          omega
        · have hbefore : (approvalToken K p).holds ⟨.approve user a, .op o k⟩
              (hist c.trace i) = true := by
            simp only [approvalToken, hread, hins.2, Bool.and_self]
          exact Or.inl (by rw [hbefore])
  -- a row was written: whoever wrote it holds no token any more
  · have hafter : (approvalToken K p).holds ⟨tag, k r⟩
        (⟨.insertAction row, r⟩ :: hist c.trace i) = false := by
      by_contra hne
      obtain ⟨_, _, hins⟩ := of_holds (Bool.not_eq_false _ ▸ hne)
      simp [isInsert] at hins
    have hpool : (approvalToken K p).pool w'
        = (approvalToken K p).pool c.world + (answers p row).toNat := by
      simp only [approvalToken, happ, List.countP_append, List.countP_cons, List.countP_nil]
      cases answers p row <;> rfl
    rw [hafter, hpool]
    left
    cases hans : answers p row with
    | false => simp
    | true =>
        obtain ⟨⟨user, a, rfl⟩, hread, hins⟩ := answers_of_calls (calls_of_next hr ht) hans
        have hbefore : (approvalToken K p).holds ⟨.approve user a, .op (.insertAction row) k⟩
            (hist c.trace i) = true := by
          simp only [approvalToken, hread, hins, Bool.and_self]
        rw [hbefore]
        simp only [Bool.toNat_true, Bool.toNat_false]
        omega

theorem approval_load (hP : ∀ c a, P c a → approvesFresh c a = true)
    (h : (system cfg).Run P (World.empty K) c) (p : Uuid) : (approvalToken K p).load c ≤ 1 := by
  refine h.load_le_one (Nat.zero_le _) ?_ (approval_conserves hP p) ?_
  · intro c x w' tag prog _ _ hs
    obtain ⟨hst, _⟩ := start_starts hs
    have hnew : (approvalToken K p).holds ⟨tag, prog⟩ [] = false := by
      by_contra hne
      obtain ⟨_, hread, _⟩ := of_holds (Bool.not_eq_false _ ▸ hne)
      cases hread
    refine Or.inl ?_
    rw [hnew]
    simp [approvalToken, hst.actionsLog]
  · intro c e _ _
    cases e <;> exact le_refl _

/-! ## What is published on the strength of a pending row -/

/-- The request that belongs to a row that answers a pending one. -/
def requestFor (D : ActionRow K) : RemediationMessage where
  actionId := some D.id
  anomalyId := D.anomalyId
  service := D.target
  action := some D.actionType
  mode := some "approved"
  targetActionId := none

/-- An approve call that had read `p` made an attempt to publish `m`. -/
def PublishedFor (c : SysConfig K) (p : Uuid) (m : RemediationMessage) : Prop :=
  ∃ e pre user a call, e :: pre <:+ c.trace ∧ e.tag = .approve user a
    ∧ e.op = .basicPublish (.remediation m) ∧ call ∈ hist pre e.tid ∧ readsPending p call = true

/-- Nothing is published before the answering row is in the ledger, and then its request only. -/
theorem row_of_publishedFor (h : (system cfg).Run P (World.empty K) c) {p : Uuid}
    {m : RemediationMessage} (hm : PublishedFor c p m) :
    ∃ D ∈ c.world.actionsLog, answers p D = true ∧ m = requestFor D := by
  obtain ⟨e, pre, user, a, call, he, htag, hop, hcall, hread⟩ := hm
  have hcalls := calls_of_suffix h he
  rw [htag, hop] at hcalls
  generalize htr : hist pre e.tid = t at hcalls
  rw [htr] at hcall
  cases published_by hcalls with
  | @approve _ _ h₀ _ d id now happ hmsg hatt =>
      obtain ⟨row, service, hsre⟩ := happ
      have hlog := (row_of_transcript h he
        (htr ▸ hatt.mem (List.mem_cons_self ..))).1
      have hrow : row.id = p := by
        obtain ⟨a', row', rfl, hid⟩ := readsPending_iff.mp hread
        -- the attempts to publish read nothing, so the row was read before them
        rcases Api.mem_of_attempts hatt hcall with hcall | hne | hne | hne
        · rcases List.mem_cons.mp hcall with heq | hcall
          · cases heq
          · cases List.mem_singleton.mp hcall
            exact hid
        · cases hne
        · cases hne
        · cases hne
      refine ⟨_, (h.le_of_mem (grows cfg) (he.subset (List.mem_cons_self ..))).actionsLog.subset
        ((changes_of_suffix h he).le.actionsLog.subset hlog), ?_, hmsg⟩
      simp [answers, Api.Dispatch.row, Api.apiRow, Api.approval, hrow]

theorem eq_of_countP_le_one {α : Type} {f : α → Bool} {l : List α} (h : l.countP f ≤ 1) {x y : α}
    (hx : x ∈ l) (hfx : f x = true) (hy : y ∈ l) (hfy : f y = true) : x = y := by
  rw [List.countP_eq_length_filter] at h
  have hx' : x ∈ l.filter f := List.mem_filter.mpr ⟨hx, hfx⟩
  have hy' : y ∈ l.filter f := List.mem_filter.mpr ⟨hy, hfy⟩
  match hl : l.filter f, h with
  | [], _ => rw [hl] at hx'; cases hx'
  | [z], _ =>
      rw [hl, List.mem_singleton] at hx' hy'
      rw [hx', hy']
  | _ :: _ :: _, h => simp at h

/--
**Where approve calls only read fresh rows, each pending row is consumed once.**

In every state of such a run at most one row answers a pending row, and all that
was ever published on its strength is that row's request.
-/
theorem pending_consumed_once
    (h : (system cfg).Run (fun c a => approvesFresh c a) (World.empty K) c) (p : Uuid) :
    c.world.actionsLog.countP (answers p) ≤ 1
      ∧ ∀ m m', PublishedFor c p m → PublishedFor c p m' → m = m' := by
  have hload := approval_load (fun _ _ hp => hp) h p
  have hone : c.world.actionsLog.countP (answers p) ≤ 1 :=
    le_trans (Nat.le_add_left _ _) hload
  refine ⟨hone, fun m m' hm hm' => ?_⟩
  obtain ⟨D, hD, hans, rfl⟩ := row_of_publishedFor h hm
  obtain ⟨D', hD', hans', rfl⟩ := row_of_publishedFor h hm'
  rw [eq_of_countP_le_one hone hD hans hD' hans']

end

open Scenario in
/-- One approval: the pending row 2 has one answer, whose request was published. -/
theorem pending_consumed_once_approved :
    ∃ c : SysConfig ℚ, c.world.actionsLog.countP (answers 2) = 1
      ∧ c.world.actionsLog.countP (answers 2) ≤ 1
      ∧ ∀ m m', PublishedFor c 2 m → PublishedFor c 2 m' → m = m' := by
  obtain ⟨c, hrun, hone⟩ := System.exists_run (S := system settings) (w := World.empty ℚ)
    (p := approvesFresh) (l := approved)
    (q := fun c => c.world.actionsLog.countP (answers 2) = 1) (by decide +kernel)
  exact ⟨c, by simpa using hone, pending_consumed_once hrun 2⟩

open Scenario in
/--
**A second approve call dispatches the same pending row again.**

The first call has ended, its row is in the ledger and its request in the queue.
-/
theorem pending_approved_twice :
    ∃ c : SysConfig ℚ, (system settings).Run (fun c a => noForgery c a) (World.empty ℚ) c
      ∧ c.world.actionsLog.countP (answers 2) = 2 ∧ c.world.remediationQueue.length = 2 := by
  obtain ⟨c, hrun, htwo⟩ := System.exists_run (S := system settings) (w := World.empty ℚ)
    (p := noForgery) (l := approved ++ [.start (.approve sre 1)] ++ calls 12 6)
    (q := fun c => c.world.actionsLog.countP (answers 2) = 2
      && c.world.remediationQueue.length = 2) (by decide +kernel)
  simp only [Bool.and_eq_true, decide_eq_true_eq] at htwo
  exact ⟨c, hrun, htwo.1, htwo.2⟩

end HyperTrace.Proof
