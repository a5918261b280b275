import HyperTrace.Effect.Window
import HyperTrace.Proof.Deliveries
import HyperTrace.Proof.Floor

/-!
# The blast radius

The rate limit counts ledger rows at one instant, the patch is sent later, and the
row that will count is stamped later still. The limit nevertheless bounds every
window, for three reasons. The executor handles one message at a time, so between
a check and the patch it admits there is no other patch. When the check is made,
every earlier patch has its row. And a row is never stamped before its patch, so
whatever lies in the window of the patch lies in the window of the check.
-/

namespace HyperTrace.Executor

variable {K : Type} {cfg : Config} {req : Request} {h : History K}

/-- What the check of the rate limit read before a throttle or freeze. -/
theorem Contains.admitted {o : Op K} {ref : Json K} (hc : Contains cfg req h o ref) :
    ∃ (now : Time) (n₁ n₂ : Nat), (n₁ : ℤ) < cfg.maxActionsPerWindow
      ∧ (n₂ : ℤ) < cfg.maxActionsPerService ∧ (⟨.now, .ok now⟩ : SysCall K) ∈ h
      ∧ (⟨.countActions (now - minutes cfg.rateLimitWindowMinutes) executedResults none, .ok n₁⟩ :
          SysCall K) ∈ h
      ∧ (⟨.countActions (now - minutes cfg.serviceRateLimitWindowMinutes) executedResults
          (some req.service), .ok n₂⟩ : SysCall K) ∈ h := by
  have hmem : ∀ {now : Time} {h₀ : History K} {c : SysCall K}, Admitted cfg req now h₀ →
      ∃ n₁ n₂ : Nat, (n₁ : ℤ) < cfg.maxActionsPerWindow ∧ (n₂ : ℤ) < cfg.maxActionsPerService
        ∧ (⟨.now, .ok now⟩ : SysCall K) ∈ c :: h₀
        ∧ (⟨.countActions (now - minutes cfg.rateLimitWindowMinutes) executedResults none, .ok n₁⟩ :
            SysCall K) ∈ c :: h₀
        ∧ (⟨.countActions (now - minutes cfg.serviceRateLimitWindowMinutes) executedResults
            (some req.service), .ok n₂⟩ : SysCall K) ∈ c :: h₀ := by
    intro now h₀ c hx
    obtain ⟨n₁, n₂, h₁, h₂⟩ := hx
    refine ⟨n₁, n₂, h₁, h₂, ?_, ?_, ?_⟩
    · exact .tail _ (.tail _ (.tail _ (.head _)))
    · exact .tail _ (.tail _ (.head _))
    · exact .tail _ (.head _)
  cases hc with
  | throttle _ _ ha => exact ⟨_, hmem ha⟩
  | freeze _ _ ha => exact ⟨_, hmem ha⟩

/-- What is recorded after a throttle or freeze patch is that it was executed. -/
theorem Answers.executed_of_patch [Scalar K] {res : ActionResult} {extra : Recorded K}
    (ha : Answers cfg req h res extra) {c : SysCall K} (hc : c ∈ h)
    (hpatch : Proof.isPatch c.op = true) (hact : req.action ≠ "rollback") : res = .executed := by
  rcases ha.patched_or_idle with ⟨_, _, _, _, _, _, ⟨hres, _⟩ | ⟨_, hroll⟩⟩ | ⟨hidle, _⟩
  · exact hres
  · exact absurd hroll hact
  · have hacts := acts_of_isPatch hpatch
    rw [hidle c hc] at hacts
    cases hacts

/-- A delivery in which a patch was answered does not end without an attempt to record it. -/
theorem Ends.recorded_of_patch [Scalar K] {m : RemediationMessage} {r : Except Err Unit}
    (he : Ends cfg m h r) {c : SysCall K} (hc : c ∈ h) (hpatch : Proof.isPatch c.op = true)
    (hok : c.isOk = true) : ¬ Unrecorded h := by
  have hacts := acts_of_isPatch hpatch
  cases he with
  | malformed => cases hc
  | noTarget => cases hc
  | badReference _ hl =>
      rw [hl.idle c hc] at hacts
      cases hacts
  | raised hidle =>
      rcases List.mem_cons.mp hc with rfl | hc
      · cases hok
      · rw [hidle c hc] at hacts
        cases hacts
  | recorded => exact fun hun => hun _ (List.mem_cons_self ..) _ rfl

end HyperTrace.Executor

namespace HyperTrace.Proof

open HyperTrace Effect

variable {K : Type}

/-- An answered throttle or freeze patch, of the given service or of any. -/
def contains (service : Option String) (e : SysEvent K) : Bool :=
  isPatch e.op && e.call.isOk &&
    match e.tag with
    | .execute m => m.action ≠ some "rollback" && service.all fun s => m.service = some s
    | _ => false

/-- The time of an event. -/
def time (e : SysEvent K) : Time := e.before.clock

/-- The executor's rows are written, and its patches change nothing when they raise. -/
def executorReliable [Scalar K] (c : SysConfig K) : SysAct K → Bool
  | .step i x =>
      match c.threads[i]? with
      | some ⟨.execute _, .op o _⟩ =>
          (!isInsert o || (⟨o, (exec c.world o x).1⟩ : SysCall K).isOk) &&
            (!isPatch o ||
              match x.fault with
              | .after _ => false
              | _ => true)
      | _ => true
  | _ => true

theorem contains_iff {service : Option String} {e : SysEvent K} :
    contains service e = true ↔ isPatch e.op = true ∧ e.call.isOk = true
      ∧ ∃ m, e.tag = .execute m ∧ m.action ≠ some "rollback"
        ∧ ∀ s, service = some s → m.service = some s := by
  unfold contains
  constructor
  · intro h
    simp only [Bool.and_eq_true] at h
    obtain ⟨⟨hp, hok⟩, hm⟩ := h
    split at hm
    · rename_i m htag
      simp only [Bool.and_eq_true, decide_eq_true_eq] at hm
      refine ⟨hp, hok, m, htag, hm.1, ?_⟩
      intro s hx
      subst hx
      simpa using hm.2
    · cases hm
  · intro hx
    obtain ⟨hp, hok, m, htag, hact, hs⟩ := hx
    simp only [hp, hok, htag, Bool.and_eq_true, decide_eq_true_eq, true_and]
    refine ⟨hact, ?_⟩
    cases service with
    | none => rfl
    | some s => simpa using hs s rfl

theorem contains_any {service : Option String} {e : SysEvent K} (h : contains service e = true) :
    contains none e = true := by
  obtain ⟨hp, hok, m, htag, hact, _⟩ := contains_iff.mp h
  exact contains_iff.mpr ⟨hp, hok, m, htag, hact, by rintro s ⟨⟩⟩

theorem not_from {e : SysEvent K} (h : contains none e = false) (service : Option String)
    (a : Time) : fromTime (contains service) time a e = false := by
  by_contra hne
  have hfrom : fromTime (contains service) time a e = true := Bool.not_eq_false _ ▸ hne
  simp only [fromTime, Bool.and_eq_true] at hfrom
  rw [contains_any hfrom.1] at h
  cases h

section

variable [Scalar K] {cfg : Settings} {c : SysConfig K}
variable {P : SysConfig K → SysAct K → Prop} {w : World K}

/-! ## One patch in each thread, and one thread at a time -/

/-- What a throttle or freeze was sent after. -/
theorem contains_spec (h : (system cfg).Run P w c) {service : Option String} {e : SysEvent K}
    {pre : List (SysEvent K)} (he : e :: pre <:+ c.trace) (hc : contains service e = true) :
    ∃ m req ref, e.tag = .execute m ∧ Executor.parseRequest m = .ok req ∧ req.action ≠ "rollback"
      ∧ (∀ s, service = some s → req.service = s)
      ∧ Executor.Contains cfg.executor req (hist pre e.tid) e.op ref := by
  obtain ⟨hp, _, m, htag, hact, hs⟩ := contains_iff.mp hc
  obtain ⟨m', req, htag', hparse, hcase⟩ := patched_by hp (calls_of_suffix h he)
  obtain rfl : m = m' := by rw [htag] at htag'; cases htag'; rfl
  obtain ⟨_, hservice, haction, _⟩ := Executor.parseRequest_ok hparse
  rcases hcase with ⟨ref, hcon⟩ | ⟨row, ⟨⟨hroll, _⟩, _⟩⟩
  · refine ⟨m, req, ref, htag, hparse, hcon.action_ne, fun s hss => ?_, hcon⟩
    exact Option.some.inj (hservice.symm.trans (hs s hss))
  · exact absurd (haction.trans (congrArg some hroll)) hact

/-- Nothing was done in its thread before a patch. -/
theorem idle_of_patch (h : (system cfg).Run P w c) {e : SysEvent K} {pre : List (SysEvent K)}
    (he : e :: pre <:+ c.trace) (hp : isPatch e.op = true) : Idle (hist pre e.tid) :=
  idle_before_patch hp (calls_of_suffix h he)

theorem idle_of_contains (h : (system cfg).Run P w c) {service : Option String} {e : SysEvent K}
    {pre : List (SysEvent K)} (he : e :: pre <:+ c.trace) (hc : contains service e = true) :
    Idle (hist pre e.tid) :=
  idle_of_patch h he (contains_iff.mp hc).1

omit [Scalar K] in
theorem not_idle_of_contains {service : Option String} {e : SysEvent K}
    (hc : contains service e = true) {t : History K} (hmem : e.call ∈ t) : ¬ Idle t :=
  not_idle_of_patch (contains_iff.mp hc).1 hmem

/-- A thread patches once. -/
theorem patch_once (h : (system cfg).Run P w c) {e e' : SysEvent K}
    {pre pre' : List (SysEvent K)} (he : e :: pre <:+ c.trace) (he' : e' :: pre' <:+ c.trace)
    (hp : isPatch e.op = true) (hp' : isPatch e'.op = true) (hi : e.tid = e'.tid) :
    e = e' ∧ pre = pre' := by
  rcases suffix_cases he he' with heq | hlt | hlt
  · exact heq
  · refine absurd (idle_of_patch h he' hp') (not_idle_of_patch hp ?_)
    exact mem_hist.mpr ⟨e, hlt.subset (List.mem_cons_self ..), hi, rfl⟩
  · refine absurd (idle_of_patch h he hp) (not_idle_of_patch hp' ?_)
    exact mem_hist.mpr ⟨e', hlt.subset (List.mem_cons_self ..), hi.symm, rfl⟩

theorem contains_once (h : (system cfg).Run P w c) {e e' : SysEvent K}
    {pre pre' : List (SysEvent K)} (he : e :: pre <:+ c.trace) (he' : e' :: pre' <:+ c.trace)
    (hc : contains none e = true) (hc' : contains none e' = true) (hi : e.tid = e'.tid) :
    e = e' ∧ pre = pre' :=
  patch_once h he he' (contains_iff.mp hc).1 (contains_iff.mp hc').1 hi

omit [Scalar K] in
theorem contains_congr {s : Option String} {e e' : SysEvent K} (hcall : e'.call = e.call)
    (htag : e'.tag = e.tag) : contains s e' = contains s e := by
  show (isPatch e'.call.op && _ && _) = (isPatch e.call.op && _ && _)
  rw [hcall, htag]

/-! ## Every patch is counted -/

/-- The patches sent from `a` on. -/
def patchesFrom (service : Option String) (a : Time) (tr : List (SysEvent K)) : Nat :=
  tr.countP (fromTime (contains service) time a)

/-- The rows a check that looks back to `a` counts. -/
def outcomesFrom (service : Option String) (a : Time) (log : List (ActionRow K)) : Nat :=
  log.countP (counted a Executor.executedResults service)

/-- Every patch has a row that counts, but for one whose outcome is still to be recorded. -/
def Accounted (c : SysConfig K) : Prop :=
  (∀ s a, patchesFrom s a c.trace ≤ outcomesFrom s a c.world.actionsLog)
    ∨ ∃ e pre, e :: pre <:+ c.trace ∧ contains none e = true ∧ Unrecorded (hist c.trace e.tid)
        ∧ ∀ s a, patchesFrom s a c.trace
            ≤ outcomesFrom s a c.world.actionsLog + (fromTime (contains s) time a e).toNat

/-- Until its outcome is recorded, a patch keeps its delivery open. -/
theorem unsettled_of_unrecorded (h : (system cfg).Run P w c) {e : SysEvent K}
    {pre : List (SysEvent K)} (he : e :: pre <:+ c.trace) (hp : isPatch e.op = true)
    (hok : e.call.isOk = true) (hu : Unrecorded (hist c.trace e.tid)) :
    Unsettled (hist c.trace e.tid) := by
  intro call hcall
  by_contra hne
  obtain ⟨es, hes, hei, rfl⟩ := mem_hist.mp hcall
  obtain ⟨prs, hsuf, _⟩ := h.origin_of_mem hes
  obtain ⟨m, _, htag, _⟩ := patched_by hp (calls_of_suffix h he)
  obtain ⟨consumer, ack, hop⟩ : ∃ consumer ack, es.op = .settle consumer ack := by
    dsimp only [Event.call] at hne
    cases hop : es.op <;> rw [hop] at hne <;> first | exact ⟨_, _, rfl⟩ | exact absurd rfl hne
  rcases suffix_cases he hsuf with ⟨rfl, _⟩ | hlt | hlt
  · rw [hop] at hp
    cases hp
  -- a settle after the patch comes after the row, too
  · have hcalls := calls_of_suffix h hsuf
    rw [hop, h.tag_eq hes (he.subset (List.mem_cons_self ..)) hei, htag, hei] at hcalls
    have hmem : e.call ∈ hist prs e.tid :=
      mem_hist.mpr ⟨e, hlt.subset (List.mem_cons_self ..), rfl, rfl⟩
    generalize htr : hist prs e.tid = t at hcalls hmem
    cases hcalls with
    | handle hmay => cases isSettle_of_mayExecute hmay
    | settle hends =>
        refine hends.recorded_of_patch hmem hp hok fun d hd => hu d ?_
        exact hist_mono ((List.suffix_cons es prs).trans hsuf) (htr ▸ hd)
  · -- nothing was settled before the patch
    have hmem : es.call ∈ hist pre e.tid :=
      mem_hist.mpr ⟨es, hlt.subset (List.mem_cons_self ..), hei, rfl⟩
    exact hne ((idle_of_patch h he hp).unsettled _ hmem)

/-- As long as the executor's thread has only read, every patch has its row. -/
theorem accounted_idle (h : (system cfg).Run P w c) (hacc : Accounted c) {i : Nat}
    {t : Thread (Op K) Op.Res Err (Tag K) Reply} (ht : c.threads[i]? = some t)
    (htag : consumerOf t.tag = some .executorActions) (hidle : Idle (hist c.trace i)) :
    ∀ s a, patchesFrom s a c.trace ≤ outcomesFrom s a c.world.actionsLog := by
  rcases hacc with hall | ⟨e, pre, he, hc, hu, _⟩
  · exact hall
  · exfalso
    have hmem : e ∈ c.trace := he.subset (List.mem_cons_self ..)
    obtain ⟨hp, hok, m, hetag, _⟩ := contains_iff.mp hc
    obtain ⟨t', ht', htag'⟩ := h.tag_of_mem hmem
    have hi : i = e.tid := by
      refine one_delivery h ht ht' htag ?_ hidle.unsettled (unsettled_of_unrecorded h he hp hok hu)
      rw [htag', hetag]
      rfl
    exact not_idle_of_contains hc (mem_hist.mpr ⟨e, hmem, hi.symm, rfl⟩) hidle

/-- **The row of a patch counts wherever the patch does.** -/
theorem counted_of_recorded (h : (system cfg).Run P w c) {e : SysEvent K} {pre : List (SysEvent K)}
    (he : e :: pre <:+ c.trace) (hc : contains none e = true) {row : ActionRow K} {tag : Tag K}
    {k : Except Err Unit → Py K Reply}
    (ht : c.threads[e.tid]? = some ⟨tag, .op (.insertAction row) k⟩) (s : Option String) (a : Time)
    (hfrom : fromTime (contains s) time a e = true) :
    counted a Executor.executedResults s row = true := by
  have hmem : e ∈ c.trace := he.subset (List.mem_cons_self ..)
  simp only [fromTime, Bool.and_eq_true, decide_eq_true_eq] at hfrom
  obtain ⟨m, req, ref, htag, hparse, hact, hs, _⟩ := contains_spec h he hfrom.1
  obtain ⟨hp, hok, _⟩ := contains_iff.mp hc
  have hcalls := calls_of_next h ht
  obtain ⟨t', ht', htag'⟩ := h.tag_of_mem hmem
  obtain rfl : tag = .execute m := by
    rw [ht] at ht'
    cases ht'
    exact htag'.trans htag
  have hcall : e.call ∈ hist c.trace e.tid := mem_hist.mpr ⟨e, hmem, rfl, rfl⟩
  generalize htr : hist c.trace e.tid = t at hcalls hcall
  cases inserted_by hcalls with
  | @execute _ req' h₀ now id res extra hparse' ha =>
      obtain rfl : req' = req := by
        rw [hparse] at hparse'
        cases hparse'
        rfl
      have hcall₀ : e.call ∈ h₀ := mem_of_stamped hcall (acts_of_isPatch hp) rfl rfl
      obtain ⟨en, pre', x, hen, hei, hencall, hrest, hx⟩ :=
        answered_after h (List.suffix_refl _) (l := [_]) htr
      -- the time of the row is read after the patch was answered
      have hin : e ∈ pre' := by
        rw [← hrest] at hcall₀
        obtain ⟨e₁, he₁, hi₁, hcall₁⟩ := mem_hist.mp hcall₀
        have hmem₁ : e₁ ∈ c.trace := ((List.suffix_cons en pre').trans hen).subset he₁
        have hc₁ := contains_congr (s := none) hcall₁ (h.tag_eq hmem₁ hmem hi₁)
        obtain ⟨pre₁, hsuf₁, _⟩ := h.origin_of_mem hmem₁
        exact (contains_once h he hsuf₁ hc (hc₁.trans hc) hi₁.symm).1 ▸ he₁
      have hclock : time e ≤ now := by
        have hle := (h.le_of_suffix (grows cfg) hen hin).clock
        rw [(changes_of_suffix h he).clock, ← exec_now (congrArg Prod.fst hx)] at hle
        exact hle
      have hres := ha.executed_of_patch hcall₀ hp hact
      simp only [counted, Executor.outcomeRow, hres, Bool.and_eq_true, decide_eq_true_eq]
      refine ⟨⟨hfrom.2.trans hclock, rfl⟩, ?_⟩
      cases s with
      | none => rfl
      | some s => simpa using hs s rfl

/-- A row that an executor's thread writes is in the ledger afterwards. -/
theorem logged_of_insert (hP : ∀ c a, P c a → executorReliable c a = true) {i : Nat} {x : Choice}
    {m : RemediationMessage} {row : ActionRow K} {k : Except Err Unit → Py K Reply}
    (hp : P c (.step i x)) (ht : c.threads[i]? = some ⟨.execute m, .op (.insertAction row) k⟩) :
    (exec c.world (.insertAction row) x).2.actionsLog = c.world.actionsLog ++ [row] := by
  have hrel := hP _ _ hp
  simp only [executorReliable, ht, isInsert, Bool.not_true, Bool.false_or, Bool.and_eq_true] at hrel
  cases hres : (exec c.world (.insertAction row) x).1 with
  | error e =>
      rw [hres] at hrel
      cases hrel.1
  | ok a => exact (exec_insertAction hres).2

/-- A step that sends no patch keeps the account. -/
theorem accounted_quiet (hP : ∀ c a, P c a → executorReliable c a = true)
    (h : (system cfg).Run P w c) {i : Nat} {x : Choice} {tag : Tag K} {o : Op K}
    {k : Except Err o.Res → Py K Reply} (hp : P c (.step i x))
    (ht : c.threads[i]? = some ⟨tag, .op o k⟩) (hacc : Accounted c) {e : SysEvent K}
    (he : e = ⟨i, tag, o, (exec c.world o x).1, c.world, (exec c.world o x).2⟩)
    (hquiet : contains none e = false) :
    Accounted ⟨(exec c.world o x).2, e :: c.trace,
      c.threads.set i ⟨tag, k (exec c.world o x).1⟩⟩ := by
  have hpatches : ∀ s a, patchesFrom s a (e :: c.trace) = patchesFrom s a c.trace :=
    fun s a => List.countP_cons_of_neg (by simp [not_from hquiet s a])
  -- no patch is added, and the ledger only grows
  have hgrow : ∀ s a, outcomesFrom s a c.world.actionsLog
      ≤ outcomesFrom s a (exec c.world o x).2.actionsLog := fun s a =>
    ((exec_changes c.world o x).le.actionsLog.sublist).countP_le
  rcases hacc with hall | ⟨e₀, pre, he₀, hc₀, hu₀, hall⟩
  · exact Or.inl fun s a => (hpatches s a).trans_le ((hall s a).trans (hgrow s a))
  · by_cases hins : e₀.tid = i ∧ ∃ row, o = .insertAction row
    · -- the outcome that was still to be recorded
      obtain ⟨hi, row, rfl⟩ := hins
      subst hi
      obtain ⟨_, _, m, htag₀, _⟩ := contains_iff.mp hc₀
      obtain ⟨t', ht', htag'⟩ := h.tag_of_mem (he₀.subset (List.mem_cons_self ..))
      obtain rfl : tag = .execute m := by
        rw [ht] at ht'
        cases ht'
        exact htag'.trans htag₀
      have hlog := logged_of_insert hP hp ht
      refine Or.inl fun s a => ?_
      have hcount := counted_of_recorded h he₀ hc₀ ht s a
      have hle := hall s a
      rw [hpatches]
      dsimp only
      rw [hlog, outcomesFrom, List.countP_append, List.countP_singleton]
      cases hfrom : fromTime (contains s) time a e₀ with
      | false =>
          rw [hfrom] at hle
          exact le_trans hle (Nat.add_le_add_left (Nat.zero_le _) _)
      | true =>
          rw [hfrom] at hle
          rw [hcount hfrom]
          exact hle
    · refine Or.inr ⟨e₀, pre, he₀.trans (List.suffix_cons _ _), hc₀, ?_, fun s a => ?_⟩
      · by_cases hi : e.tid = e₀.tid
        · have hi' : e₀.tid = i := by rw [← hi, he]
          rw [← hi, hist_cons_self, hi]
          refine .cons (fun row hrow => hins ⟨hi', row, ?_⟩) hu₀
          rw [← hrow, he]
          rfl
        · rw [hist_cons_ne hi]
          exact hu₀
      · rw [hpatches]
        exact (hall s a).trans (Nat.add_le_add_right (hgrow s a) _)

/-- A patch is the one whose outcome is still to be recorded. -/
theorem accounted_patch {c c' : SysConfig K} (h : (system cfg).Run P w c)
    (h' : (system cfg).Run P w c') {e : SysEvent K} (htr : c'.trace = e :: c.trace)
    (hch : Changes c.world e.op c'.world) {prog : Py K Reply}
    (ht : c.threads[e.tid]? = some ⟨e.tag, prog⟩) (hacc : Accounted c)
    (hc : contains none e = true) : Accounted c' := by
  have he : e :: c.trace <:+ c'.trace := htr ▸ List.suffix_refl _
  have hidle := idle_of_contains h' he hc
  obtain ⟨hp, _, m, htag, _⟩ := contains_iff.mp hc
  have hall := accounted_idle h hacc ht (by rw [htag]; rfl) hidle
  have hlog : c'.world.actionsLog = c.world.actionsLog := by
    rcases hch.actionsLog with hsame | ⟨row, hop, _⟩
    · exact hsame
    · rw [hop] at hp
      cases hp
  refine Or.inr ⟨e, c.trace, he, hc, ?_, fun s a => ?_⟩
  · rw [htr, hist_cons_self]
    refine .cons (fun row hrow => ?_) hidle.unrecorded
    rw [show e.op = .insertAction row from hrow] at hp
    cases hp
  · rw [htr, hlog, patchesFrom, List.countP_cons]
    refine le_trans (Nat.add_le_add_right (hall s a) _) (le_of_eq (congrArg _ ?_))
    cases fromTime (contains s) time a e <;> rfl

/-- **In every state, all patches are accounted for.** -/
theorem accounted (hP : ∀ c a, P c a → executorReliable c a = true) (h : (system cfg).Run P w c) :
    Accounted c := by
  induction h with
  | init => exact Or.inl fun s a => Nat.zero_le _
  | @tail c c' a hr hp hs ih =>
      rcases System.step_cases hs with ⟨x, w', tag, p, _, hst, rfl⟩ |
        ⟨i, x, tag, o, k, rfl, ht, rfl⟩ | ⟨v, _, rfl⟩
      · simpa only [Accounted, (start_starts hst).1.actionsLog] using ih
      · cases hc : contains none (⟨i, tag, o, (exec c.world o x).1, c.world,
            (exec c.world o x).2⟩ : SysEvent K) with
        | false => exact accounted_quiet hP hr hp ht ih rfl hc
        | true =>
            exact accounted_patch hr (hr.tail hp hs) rfl (exec_changes c.world o x) ht ih hc
      · have hlog : (c.world.env v).actionsLog = c.world.actionsLog := by cases v <;> rfl
        simpa only [Accounted, system, hlog] using ih

/-! ## Between a check and its patch -/

/-- All calls of the thread that patches are the executor's. -/
theorem execute_of_contains (h : (system cfg).Run P w c) {e ec : SysEvent K}
    {pre prec : List (SysEvent K)} (he : e :: pre <:+ c.trace) (hc : contains none e = true)
    (hec : ec :: prec <:+ c.trace) (hei : ec.tid = e.tid) : ∃ m, ec.tag = .execute m := by
  obtain ⟨_, _, m, htag, _⟩ := contains_iff.mp hc
  have hsame : ec.tag = e.tag :=
    h.tag_eq (hec.subset (List.mem_cons_self ..)) (he.subset (List.mem_cons_self ..)) hei
  exact ⟨m, hsame.trans htag⟩

/-- Between what a thread read and the patch it sends, nobody else sends one. -/
theorem none_between (h : (system cfg).Run P w c) {e : SysEvent K} {pre : List (SysEvent K)}
    (he : e :: pre <:+ c.trace) (hc : contains none e = true) {ec : SysEvent K}
    {prec : List (SysEvent K)} (hec : ec :: prec <:+ pre) (hei : ec.tid = e.tid)
    (s : Option String) (a : Time) : patchesFrom s a pre = patchesFrom s a prec := by
  have hpre : pre <:+ c.trace := (List.suffix_cons e pre).trans he
  have hidle := idle_of_contains h he hc
  obtain ⟨m, hetag⟩ := execute_of_contains h he hc (hec.trans hpre) hei
  have hown : ∀ e₁ ∈ pre, e₁.tid = e.tid → contains none e₁ = false := by
    intro e₁ he₁ hi
    by_contra hne
    exact not_idle_of_contains (Bool.not_eq_false _ ▸ hne) (mem_hist.mpr ⟨e₁, he₁, hi, rfl⟩) hidle
  obtain ⟨l, rfl⟩ := hec
  have hnone : ∀ e₁ ∈ l, contains none e₁ = false := by
    intro e₁ he₁
    by_contra hne
    have hc₁ : contains none e₁ = true := Bool.not_eq_false _ ▸ hne
    obtain ⟨l₁, l₂, rfl⟩ := List.append_of_mem he₁
    have hsuf : e₁ :: (l₂ ++ ec :: prec) <:+ l₁ ++ e₁ :: l₂ ++ ec :: prec := ⟨l₁, by simp⟩
    -- when it was sent, the thread of the check had its delivery open, too
    obtain ⟨c₂, _, _, hr₂, _, _, htr₂, ht₂, _⟩ := h.origin (hsuf.trans hpre)
    obtain ⟨t, ht, httag⟩ := hr₂.tag_of_mem (e := ec) (by
      rw [htr₂]
      exact List.mem_append_right _ (List.mem_cons_self ..))
    have hidle₂ : Idle (hist c₂.trace ec.tid) := by
      rw [htr₂, hei]
      exact fun call hcl => hidle call (hist_mono ((List.suffix_cons e₁ _).trans hsuf) hcl)
    have hidle₁ : Idle (hist c₂.trace e₁.tid) := htr₂ ▸ idle_of_contains h (hsuf.trans hpre) hc₁
    obtain ⟨_, _, m₁, htag₁, _⟩ := contains_iff.mp hc₁
    have hi : e₁.tid = ec.tid := one_delivery hr₂ ht₂ ht (by rw [htag₁]; rfl)
      (by rw [httag, hetag]; rfl) hidle₁.unsettled hidle₂.unsettled
    rw [hown e₁ (hsuf.subset (List.mem_cons_self ..)) (hi.trans hei)] at hc₁
    cases hc₁
  have hcheck := hown ec (List.mem_append_right _ (List.mem_cons_self ..)) hei
  rw [patchesFrom, List.countP_append, List.countP_cons_of_neg (by simp [not_from hcheck s a]),
    List.countP_eq_zero.mpr fun e₁ he₁ => by simp [not_from (hnone e₁ he₁) s a], Nat.zero_add]
  rfl

/-- **A check saw every patch there was when it let another one through.** -/
theorem patches_le_count (hP : ∀ c a, P c a → executorReliable c a = true)
    (h : (system cfg).Run P w c) {e : SysEvent K} {pre : List (SysEvent K)}
    (he : e :: pre <:+ c.trace) {s : Option String} (hc : contains none e = true) {since a : Time}
    {n : Nat} (hcheck : (⟨.countActions since Executor.executedResults s, .ok n⟩ : SysCall K)
      ∈ hist pre e.tid) (ha : since ≤ a) : patchesFrom s a pre ≤ n := by
  have hpre : pre <:+ c.trace := (List.suffix_cons e pre).trans he
  have hidle := idle_of_contains h he hc
  obtain ⟨ec, prec, x, hec, hei, hcall, hx⟩ := answered h hpre hcheck
  obtain ⟨m, hetag⟩ := execute_of_contains h he hc (hec.trans hpre) hei
  obtain ⟨c₁, _, _, hr₁, _, hw₁, htr₁, ht₁, _⟩ := h.origin (hec.trans hpre)
  have hidle₁ : Idle (hist c₁.trace ec.tid) := by
    rw [htr₁, hei]
    exact fun call hcl => hidle call (hist_mono ((List.suffix_cons ec prec).trans hec) hcl)
  have hall := accounted_idle hr₁ (accounted hP hr₁) ht₁ (by rw [hetag]; rfl) hidle₁ s a
  rw [htr₁, hw₁] at hall
  calc patchesFrom s a pre = patchesFrom s a prec := none_between h he hc hec hei s a
    _ ≤ outcomesFrom s a ec.before.actionsLog := hall
    _ ≤ outcomesFrom s since ec.before.actionsLog := by
        refine List.countP_mono_left fun row _ hrow => ?_
        simp only [counted, Bool.and_eq_true, decide_eq_true_eq] at hrow ⊢
        exact ⟨⟨ha.trans hrow.1.1, hrow.1.2⟩, hrow.2⟩
    _ = n := (exec_countActions (congrArg Prod.fst hx)).symm

/-! ## Every window -/

/-- The time a thread has read is not later than what it does next. -/
theorem now_le_time (h : (system cfg).Run P w c) {e : SysEvent K} {pre : List (SysEvent K)}
    (he : e :: pre <:+ c.trace) {now : Time}
    (hnow : (⟨.now, .ok now⟩ : SysCall K) ∈ hist pre e.tid) : now ≤ time e := by
  obtain ⟨en, pren, x, hen, _, _, hx⟩ :=
    answered h ((List.suffix_cons e pre).trans he) hnow
  rw [exec_now (congrArg Prod.fst hx), ← (changes_of_exec hx).clock]
  exact (h.le_of_suffix (grows cfg) he (hen.subset (List.mem_cons_self ..))).clock

/-- A throttle or freeze patch that took effect. -/
structure Executed (m : RemediationMessage) (e : SysEvent K) : Prop where
  tag : e.tag = .execute m
  action : m.action ≠ some "rollback"
  patch : isPatch e.op = true
  effect : e.call.isOk = true ∨ e.after.cluster ≠ e.before.cluster

/-- A patch that took effect was answered. -/
theorem contains_of_executed (hP : ∀ c a, P c a → executorReliable c a = true)
    (h : (system cfg).Run P w c) {e : SysEvent K} (he : e ∈ c.trace) {m : RemediationMessage}
    (hex : Executed m e) {s : Option String} (hs : ∀ s', s = some s' → m.service = some s') :
    contains s e = true := by
  refine contains_iff.mpr ⟨hex.patch, ?_, m, hex.tag, hex.action, hs⟩
  rcases hex.effect with hok | hne
  · exact hok
  -- a patch that raised has not reached the cluster, the faults being reliable
  · by_contra hraised
    obtain ⟨tid, tag, op, res, before, after⟩ := e
    obtain ⟨pre, _, c₀, x, k, _, hp, hw, _, ht, hx⟩ := h.origin_of_mem he
    obtain rfl : tag = .execute m := hex.tag
    have hpatch := hex.patch
    dsimp only at ht hx hne hpatch
    have hrel := hP _ _ hp
    simp only [executorReliable, ht, hpatch, Bool.not_true, Bool.false_or, Bool.and_eq_true] at hrel
    have hf : ∀ e, x.fault ≠ .after e := by
      intro e hf
      rw [hf] at hrel
      cases hrel.2
    cases res with
    | ok a => exact hraised rfl
    | error e =>
        have hsame := exec_patch_raised hpatch hf (congrArg Prod.fst hx)
        rw [show (exec before op x).2 = after from congrArg Prod.snd hx] at hsame
        exact hne hsame

/-- A check with room left lets no window overflow. -/
theorem patches_window_le (hP : ∀ c a, P c a → executorReliable c a = true)
    (h : (system cfg).Run P w c) {s : Option String} {limit W : ℤ} (hlimit : 0 < limit)
    (hcheck : ∀ e pre, e :: pre <:+ c.trace → contains s e = true → ∃ (now : Time) (n : Nat),
      (n : ℤ) < limit ∧ (⟨.now, .ok now⟩ : SysCall K) ∈ hist pre e.tid
        ∧ (⟨.countActions (now - minutes W) Executor.executedResults s, .ok n⟩ :
            SysCall K) ∈ hist pre e.tid) (a : Time) :
    (c.trace.countP (inWindow (contains s) time (minutes W) a) : ℤ) ≤ limit := by
  have hle : c.trace.countP (inWindow (contains s) time (minutes W) a) ≤ limit.toNat := by
    refine countP_inWindow_le (fun e pre he hc a _ hend => ?_) a
    obtain ⟨now, n, hn, hnow, hcount⟩ := hcheck e pre he hc
    have hnow' := now_le_time h he hnow
    have hpatches := patches_le_count (s := s) (a := a) hP h he (contains_any hc) hcount
      (sub_le_iff_le_add.mpr (hnow'.trans hend))
    show patchesFrom s a pre < limit.toNat
    omega
  omega

/--
**The blast radius, in every window.**

Take any patches of a run that took effect. If they all lie in one window of the
global length, wherever it starts, there are no more of them than the global limit;
and if they also are for one service, and lie in a window of the service's length,
no more than the service's limit.
-/
theorem blast_radius (h : (system cfg).Run (fun c a => executorReliable c a) w c)
    (hglobal : 0 < cfg.executor.maxActionsPerWindow)
    (hservice : 0 < cfg.executor.maxActionsPerService) {l : List (SysEvent K)}
    (hl : l.Sublist c.trace) (a : Time) :
    ((∀ e ∈ l, (∃ m, Executed m e) ∧ a ≤ time e
        ∧ time e ≤ a + minutes cfg.executor.rateLimitWindowMinutes) →
      (l.length : ℤ) ≤ cfg.executor.maxActionsPerWindow)
    ∧ ∀ service, (∀ e ∈ l, (∃ m, Executed m e ∧ m.service = some service) ∧ a ≤ time e
        ∧ time e ≤ a + minutes cfg.executor.serviceRateLimitWindowMinutes) →
      (l.length : ℤ) ≤ cfg.executor.maxActionsPerService := by
  -- the patches are among those of the window, which are what is bounded
  have hcount : ∀ {s : Option String} {W : Time}, (∀ e ∈ l, contains s e = true ∧ a ≤ time e
      ∧ time e ≤ a + W) → l.length ≤ c.trace.countP (inWindow (contains s) time W a) := by
    intro s W hin
    have hall : l.countP (inWindow (contains s) time W a) = l.length :=
      List.countP_eq_length.mpr fun e he => by simp [inWindow, hin e he]
    exact hall ▸ hl.countP_le
  constructor
  · intro hin
    refine le_trans (Int.ofNat_le.mpr (hcount (s := none) fun e he => ?_))
      (patches_window_le (W := cfg.executor.rateLimitWindowMinutes)
        (fun _ _ hp => hp) h hglobal (fun e pre he hc => ?_) a)
    · obtain ⟨⟨m, hex⟩, htime⟩ := hin e he
      exact ⟨contains_of_executed (fun _ _ hp => hp) h (hl.subset he) hex (by rintro s ⟨⟩), htime⟩
    · obtain ⟨_, _, _, _, _, _, _, hcon⟩ := contains_spec h he hc
      obtain ⟨now, n, _, hn, _, hnow, hcount, _⟩ := hcon.admitted
      exact ⟨now, n, hn, hnow, hcount⟩
  · intro service hin
    refine le_trans (Int.ofNat_le.mpr (hcount (s := some service) fun e he => ?_))
      (patches_window_le (W := cfg.executor.serviceRateLimitWindowMinutes)
        (fun _ _ hp => hp) h hservice (fun e pre he hc => ?_) a)
    · obtain ⟨⟨m, hex, hm⟩, htime⟩ := hin e he
      refine ⟨contains_of_executed (fun _ _ hp => hp) h (hl.subset he) hex ?_, htime⟩
      intro s hx
      cases hx
      exact hm
    · obtain ⟨_, _, _, _, _, _, hs, hcon⟩ := contains_spec h he hc
      obtain ⟨now, _, n, _, hn, hnow, _, hcount⟩ := hcon.admitted
      rw [hs service rfl] at hcount
      exact ⟨now, n, hn, hnow, hcount⟩

end

namespace Scenario

/-- The throttle is approved once more, and thread `i` of the executor checks the rate limit. -/
def onceMore (i : Nat) : List (SysAct ℚ) :=
  [.start (.approve sre 1)] ++ calls i 6 ++ [.start (.remediation 0)] ++ calls (i + 1) 3

/-- The service is given its core back, and when it has its budget back is throttled once more. -/
def throttledTwice : List (SysAct ℚ) :=
  executed ++ [.env (.changeCluster cluster), .env (.tick 960000000)] ++ onceMore 13 ++ calls 14 2

/-- At most two patches an hour, and one of a service in a quarter of an hour. -/
def twoAnHour : Settings :=
  { settings with
    executor :=
      { settings.executor with
        maxActionsPerWindow := 2
        rateLimitWindowMinutes := 60 } }

end Scenario

open Scenario in
/-- Two throttles of one service, sixteen minutes apart: both limits are used up. -/
theorem blast_radius_throttled :
    ∃ (c : SysConfig ℚ) (l : List (SysEvent ℚ)), l.Sublist c.trace ∧ l.length = 2
      ∧ (∀ e ∈ l, ∃ m, Executed m e ∧ m.service = some victim)
      ∧ (l.length : ℤ) ≤ twoAnHour.executor.maxActionsPerWindow
      ∧ ∀ e ∈ l, (([e].length : Nat) : ℤ) ≤ twoAnHour.executor.maxActionsPerService := by
  obtain ⟨c, hrun, hcheck⟩ := System.exists_run (S := system twoAnHour) (w := World.empty ℚ)
    (p := executorReliable) (l := throttledTwice)
    (q := fun c => let l := c.trace.filter (contains (some victim))
      l.length = 2 && l.all fun e => decide (0 ≤ time e ∧ time e ≤ minutes 60))
    (by decide +kernel)
  simp only [Bool.and_eq_true, decide_eq_true_eq, List.all_eq_true] at hcheck
  obtain ⟨hlen, htime⟩ := hcheck
  have hsub := List.filter_sublist (l := c.trace) (p := contains (some victim))
  have hex : ∀ e ∈ c.trace.filter (contains (some victim)),
      ∃ m, Executed m e ∧ m.service = some victim := by
    intro e he
    obtain ⟨hpatch, hok, m, htag, hact, hservice⟩ := contains_iff.mp (List.mem_filter.mp he).2
    exact ⟨m, ⟨htag, hact, hpatch, Or.inl hok⟩, hservice victim rfl⟩
  have hbound : ∀ {l : List (SysEvent ℚ)}, l.Sublist c.trace → ∀ a, _ :=
    fun hl a => blast_radius hrun (by decide) (by decide) hl a
  refine ⟨c, _, hsub, hlen, hex, (hbound hsub 0).1 fun e he => ?_, fun e he => ?_⟩
  · obtain ⟨m, hm, _⟩ := hex e he
    obtain ⟨hlow, hhigh⟩ := htime e he
    exact ⟨⟨m, hm⟩, hlow, by simpa [twoAnHour] using hhigh⟩
  · have hmem := List.singleton_sublist.mpr (hsub.subset he)
    refine (hbound hmem (time e)).2 victim fun e' he' => ?_
    obtain rfl := List.mem_singleton.mp he'
    exact ⟨hex e' he, le_refl _, by simp [twoAnHour, settings, minutes]⟩

end HyperTrace.Proof
