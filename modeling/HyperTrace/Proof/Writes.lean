import HyperTrace.Proof.Floor

/-!
# Writing to a database that is available

A row can still be refused: its id may be taken, or a row it refers to may be
missing. Neither happens to a row a service appends. Ids are never issued twice,
and whatever a row refers to was read from the tables, which only grow, or came in
a request whose own row was written first.
-/

namespace HyperTrace.Proof

open HyperTrace Effect

variable {K : Type}

/-- The calls that go to the database. -/
def isDatabase : Op K → Bool
  | .insertAnomaly _ => true
  | .updateAnomaly _ _ _ => true
  | .anomalyService _ => true
  | .selectPolicies => true
  | .insertPolicy _ => true
  | .deletePolicy _ => true
  | .insertAction _ => true
  | .latestAction _ _ => true
  | .actionById _ => true
  | .countActions _ _ _ => true
  | .loadProfile _ _ => true
  | .saveProfile _ _ _ => true
  | _ => false

/-- No call to the database fails for any reason but its own statement. -/
def databaseUp (c : SysConfig K) : SysAct K → Bool
  | .step i x => !(System.next c i).any isDatabase || x.fault = .none
  | _ => true

theorem fault_none {c : SysConfig K} {i : Nat} {x : Choice} {tag : Tag K} {o : Op K}
    {k : Except Err o.Res → Py K Reply} (h : databaseUp c (.step i x) = true)
    (ht : c.threads[i]? = some ⟨tag, .op o k⟩) (ho : isDatabase o = true) : x.fault = .none := by
  simpa [databaseUp, System.next_of_thread ht, ho] using h

section

variable [Scalar K] {cfg : Settings} {c : SysConfig K}
variable {P : SysConfig K → SysAct K → Prop} {w : World K}

theorem exec_of_call (h : (system cfg).Run P w c) {e : SysEvent K} {pre : List (SysEvent K)}
    (he : e :: pre <:+ c.trace) {call : SysCall K} (hcall : e.call = call) :
    ∃ x, exec e.before call.op x = (call.res, e.after) := by
  subst hcall
  exact exec_of_suffix h he

/-! ## Ids -/

/-- An id is issued once: a later one is larger. -/
theorem uuid4_lt (h : (system cfg).Run P w c) {e e' : SysEvent K} {pre pre' : List (SysEvent K)}
    (he : e :: pre <:+ c.trace) (he' : e' :: pre' <:+ pre) {id id' : Uuid}
    (hid : e.call = ⟨.uuid4, .ok id⟩) (hid' : e'.call = ⟨.uuid4, .ok id'⟩) : id' < id := by
  have hpre : pre <:+ c.trace := (List.suffix_cons e pre).trans he
  obtain ⟨x, hx⟩ := exec_of_call h he hid
  obtain ⟨x', hx'⟩ := exec_of_call h (he'.trans hpre) hid'
  obtain ⟨heq, _⟩ := exec_uuid4 (congrArg Prod.fst hx)
  obtain ⟨heq', hnext⟩ := exec_uuid4 (congrArg Prod.fst hx')
  rw [hx'] at hnext
  have hle := (h.le_of_suffix (grows cfg) he (he'.subset (List.mem_cons_self ..))).nextUuid
  rw [hnext, ← heq', ← heq] at hle
  exact hle

/-- Whoever writes a row has drawn its id, and has written nothing since. -/
theorem uuid_of_insert {tag : Tag K} {t : History K} {row : ActionRow K}
    (h : Calls cfg tag t (.insertAction row)) :
    ∃ l t', t = l ++ ⟨.uuid4, .ok row.id⟩ :: t' ∧ Unrecorded l := by
  have hnow : ∀ now : Time, Unrecorded [(⟨.now, .ok now⟩ : SysCall K)] :=
    fun now => .skip rfl .nil
  cases inserted_by h with
  | decision => exact ⟨[_], _, rfl, hnow _⟩
  | approve hmay =>
      cases hmay with
      | read ho => cases ho
      | insert => exact ⟨[_], _, rfl, hnow _⟩
      | fail => exact ⟨[_], _, rfl, hnow _⟩
  | rollback hmay =>
      cases hmay with
      | read ho => cases ho
      | insert => exact ⟨[_], _, rfl, hnow _⟩
      | fail => exact ⟨[_], _, rfl, hnow _⟩
  | execute => exact ⟨[], _, rfl, .nil⟩

/-- A call made under an id is made by the thread that drew it, and after it was drawn. -/
theorem mem_of_drawn (h : (system cfg).Run P w c) {i : Nat} {id : Uuid} {l t : History K}
    (hi : hist c.trace i = l ++ ⟨.uuid4, .ok id⟩ :: t) {ins : SysEvent K} {pre : List (SysEvent K)}
    (hins : ins :: pre <:+ c.trace) {r u : History K}
    (hu : hist pre ins.tid = r ++ ⟨.uuid4, .ok id⟩ :: u) : ins.call ∈ l := by
  have hpre : pre <:+ c.trace := (List.suffix_cons ins pre).trans hins
  obtain ⟨e, pre₁, he, hei, hecall, het⟩ := hist_split hi
  obtain ⟨e', pre₂, he', hei', hecall', het'⟩ := hist_split hu
  rcases suffix_cases he (he'.trans hpre) with ⟨rfl, rfl⟩ | hlt | hlt
  · obtain rfl : ins.tid = i := hei'.symm.trans hei
    obtain ⟨q, hq⟩ := hist_suffix hins ins.tid
    rw [hist_cons_self, hu, hi, ← het, ← het'] at hq
    have hq' : (q ++ ins.call :: r) ++ ⟨.uuid4, .ok id⟩ :: hist pre₁ ins.tid
        = l ++ ⟨.uuid4, .ok id⟩ :: hist pre₁ ins.tid := by
      simpa using hq
    rw [← List.append_cancel_right hq']
    exact List.mem_append_right _ (List.mem_cons_self ..)
  · exact absurd (uuid4_lt h (he'.trans hpre) hlt hecall' hecall) (lt_irrefl _)
  · exact absurd (uuid4_lt h he hlt hecall hecall') (lt_irrefl _)

/-- **An id drawn by a thread that has written nothing since is not in the ledger.** -/
theorem fresh_of_uuid4 (h : (system cfg).Run P w c) (hw : w.actionsLog = []) {i : Nat} {id : Uuid}
    {l t : History K} (hi : hist c.trace i = l ++ ⟨.uuid4, .ok id⟩ :: t) (hl : Unrecorded l) :
    ∀ r ∈ c.world.actionsLog, r.id ≠ id := by
  intro r hr hx
  subst hx
  rcases row_inserted h hr with hr | ⟨ins, pre, hins, hop, _⟩
  · rw [hw] at hr
    cases hr
  · have hcalls := calls_of_suffix h hins
    rw [hop] at hcalls
    obtain ⟨l', t', ht, _⟩ := uuid_of_insert hcalls
    exact hl _ (mem_of_drawn h hi hins ht) r hop

/-! ## References -/

/-- Everything the row refers to is there, and its mode is one of the three. -/
structure Resolves (row : ActionRow K) (v : World K) : Prop where
  anomaly : ∀ a, row.anomalyId = some a → ∃ r ∈ v.anomalies, r.id = a
  parent : ∀ p, row.parentActionId = some p → ∃ r ∈ v.actionsLog, r.id = p
  reference : ∀ p, row.rollbackRef = some p → ∃ r ∈ v.actionsLog, r.id = p
  mode : modeAllowed row.mode = true

/-- The anomaly of a ledger row stays in its table. -/
theorem anomaly_of_row (h : (system cfg).Run P w c) (hw : w.actionsLog = []) {row : ActionRow K}
    (hrow : row ∈ c.world.actionsLog) {a : Uuid} (ha : row.anomalyId = some a) :
    ∃ r ∈ c.world.anomalies, r.id = a := by
  rcases row_inserted h hrow with hrow | ⟨e, pre, he, _, hadm, _⟩
  · rw [hw] at hrow
    cases hrow
  · simp only [World.admits, Bool.and_eq_true, ha, Option.all_some, List.any_eq_true,
      decide_eq_true_eq] at hadm
    obtain ⟨r, hr, hid⟩ := hadm.1.1.1.2
    have hle := (changes_of_suffix h he).le.trans
      (h.le_of_mem (grows cfg) (he.subset (List.mem_cons_self ..)))
    obtain ⟨r', hr', hid', _⟩ := hle.anomalies r hr
    exact ⟨r', hr', hid'.trans hid⟩

omit [Scalar K] in
theorem admits_of_resolves {v : World K} {row : ActionRow K}
    (hfresh : ∀ r ∈ v.actionsLog, r.id ≠ row.id) (hrow : Resolves row v) :
    v.admits row = true := by
  simp only [World.admits, Bool.and_eq_true, List.all_eq_true, decide_eq_true_eq]
  refine ⟨⟨⟨⟨hfresh, ?_⟩, ?_⟩, ?_⟩, hrow.mode⟩
  · cases ha : row.anomalyId with
    | none => rfl
    | some a => simpa using hrow.anomaly a ha
  · cases hp : row.parentActionId with
    | none => rfl
    | some p => simpa using hrow.parent p hp
  · cases hr : row.rollbackRef with
    | none => rfl
    | some r => simpa using hrow.reference r hr

/-- An insert the constraints allow is answered. -/
theorem admitted_answered (hP : ∀ c a, P c a → databaseUp c a = true)
    (h : (system cfg).Run P w c) {e : SysEvent K} {pre : List (SysEvent K)}
    (he : e :: pre <:+ c.trace) {row : ActionRow K} (hop : e.op = .insertAction row)
    (hadm : e.before.admits row = true) : e.call = ⟨.insertAction row, .ok ()⟩ := by
  obtain ⟨tid, tag, op, res, before, after⟩ := e
  subst hop
  obtain ⟨c₀, x, k, hr, hp, hworld, htr, ht, hx⟩ := h.origin he
  have hf := fault_none (hP _ _ hp) ht rfl
  have hres := congrArg Prod.fst hx
  simp only [system, exec, hf, faulty, World.insertAction, hadm, ↓reduceIte] at hres
  subst hres
  rfl

/-- The constraints allow a row whose references resolve. -/
theorem admits_of_insert (h : (system cfg).Run P w c) (hw : w.actionsLog = []) {e : SysEvent K}
    {pre : List (SysEvent K)} (he : e :: pre <:+ c.trace) {row : ActionRow K}
    (hop : e.op = .insertAction row) (hrow : Resolves row e.before) :
    e.before.admits row = true := by
  obtain ⟨c₀, _, _, hr, _, hworld, htr, _⟩ := h.origin he
  have hcalls := calls_of_suffix h he
  rw [hop] at hcalls
  obtain ⟨l, t, hhist, hl⟩ := uuid_of_insert hcalls
  have hfresh : ∀ r ∈ e.before.actionsLog, r.id ≠ row.id :=
    hworld ▸ fresh_of_uuid4 hr hw (htr ▸ hhist) hl
  exact admits_of_resolves hfresh hrow

/-- **A row whose references resolve is written.** -/
theorem insert_answered (hP : ∀ c a, P c a → databaseUp c a = true) (h : (system cfg).Run P w c)
    (hw : w.actionsLog = []) {e : SysEvent K} {pre : List (SysEvent K)} (he : e :: pre <:+ c.trace)
    {row : ActionRow K} (hop : e.op = .insertAction row) (hrow : Resolves row e.before) :
    e.call = ⟨.insertAction row, .ok ()⟩ :=
  admitted_answered hP h he hop (admits_of_insert h hw he hop hrow)

/-- What a database that is available, or the process itself, is asked is answered. -/
theorem raises_outside (hP : ∀ c a, P c a → databaseUp c a = true) (h : (system cfg).Run P w c)
    {e : SysEvent K} {pre : List (SysEvent K)} (he : e :: pre <:+ c.trace)
    (hraised : e.call.isOk = false) :
    isBroker e.op = true ∨ isKubernetes e.op = true ∨ (∃ row, e.op = .insertAction row)
      ∨ ∃ row, e.op = .insertAnomaly row := by
  obtain ⟨tid, tag, op, res, before, after⟩ := e
  obtain ⟨c₀, x, k, hr, hp, hworld, htr, ht, hx⟩ := h.origin he
  dsimp only at ht hx ⊢
  have hok : ∀ (a : op.Res) (w' : World K), isDatabase op = true →
      exec before op x = faulty x.fault before (.ok a, w') → False := by
    intro a w' ho heq
    rw [fault_none (hP _ _ hp) ht ho] at heq
    rw [show res = .ok a from congrArg Prod.fst (hx.symm.trans heq)] at hraised
    cases hraised
  have hlocal : ∀ (a : op.Res), (exec before op x).1 = .ok a → False := by
    intro a heq
    rw [show res = .ok a from (congrArg Prod.fst hx).symm.trans heq] at hraised
    cases hraised
  -- by where the call goes: the broker, the cluster, the process, or the database
  cases op with
  | insertAnomaly row => exact Or.inr (Or.inr (Or.inr ⟨row, rfl⟩))
  | insertAction row => exact Or.inr (Or.inr (Or.inl ⟨row, rfl⟩))
  | basicPublish p => exact Or.inl rfl
  | settle consumer ack => exact Or.inl rfl
  | readDeployment name ns => exact Or.inr (Or.inl rfl)
  | patchDeployment name ns container cpu => exact Or.inr (Or.inl rfl)
  | listHpas ns => exact Or.inr (Or.inl rfl)
  | patchHpa name ns max => exact Or.inr (Or.inl rfl)
  | now => exact (hlocal _ rfl).elim
  | uuid4 => exact (hlocal _ rfl).elim
  | getTrafficZ s => exact (hlocal _ rfl).elim
  | setTrafficZ s z => exact (hlocal _ rfl).elim
  | getRecentEvent s => exact (hlocal _ rfl).elim
  | setRecentEvent s t => exact (hlocal _ rfl).elim
  | getRecentSecurity s => exact (hlocal _ rfl).elim
  | setRecentSecurity s entry => exact (hlocal _ rfl).elim
  | _ => exact (hok _ _ rfl rfl).elim

end

end HyperTrace.Proof
