import HyperTrace.Effect.Record
import HyperTrace.Proof.Calls

/-!
# One message, handled from an arbitrary world

The executor handles one message at a time. What a single handling does to the
cluster and to the ledger is said here in terms of the world it began in, for every
world, every message and every way its calls may fail: a throttle or freeze patches
what it finds, a rollback what the row it recalls says, either only once; and a row
is only marked executed when the patch behind it was answered.
-/

namespace HyperTrace.Executor

open Effect Proof

variable {K : Type}

/-- A message and the world it is handled in, with the way its calls are resolved. -/
structure Handling (K : Type) where
  message : RemediationMessage
  before : World K
  choices : Nat → Choice

abbrev Did (K : Type) := Made (Op K) Op.Res Err (World K)

/-- The patch was answered, or it changed the cluster although it was not. -/
def TookEffect (e : Did K) : Prop :=
  isPatch e.op = true ∧ (e.call.isOk = true ∨ e.after.cluster ≠ e.before.cluster)

/-- The answer of the API server to a patch, and what it leaves behind. -/
def sent (o : Op K) (cl : Cluster) : Except Err Unit × Cluster :=
  match o with
  | .patchDeployment name ns container cpu => cl.patchDeployment name ns container cpu
  | .patchHpa name ns max => cl.patchHpa name ns max
  | _ => (.ok (), cl)

/-- What a throttle or freeze finds in the cluster: what to patch, and what it refers to. -/
inductive Finds (req : Request) (cl : Cluster) : Op K → Json K → Prop where
  | throttle {ns name : String} {d : Deployment} : req.action = RemediationAction.throttle.value →
      splitService req.service = (ns, name) → cl.deployment ns name = some d →
      d.first.cpuLimit ≠ some throttleCpuLimit →
      Finds req cl (.patchDeployment name ns d.first.name (.str throttleCpuLimit))
        (throttleRef ns name d.first.name d.first.cpuLimit)
  | freeze {ns name : String} {hpa : Hpa} {n : Nat} :
      req.action = RemediationAction.freezeScaling.value → splitService req.service = (ns, name) →
      cl.hpaOf ns name = some hpa → hpa.currentReplicas = some n → hpa.maxReplicas ≠ n →
      Finds req cl (.patchHpa hpa.name ns (.int n)) (freezeRef ns hpa.name hpa.maxReplicas)

theorem Finds.action_ne {req : Request} {cl : Cluster} {o : Op K} {ref : Json K}
    (h : Finds req cl o ref) : req.action ≠ "rollback" := by
  cases h with
  | throttle hact => rw [hact]; decide
  | freeze hact => rw [hact]; decide

/-! ## What a record says about the world -/

section Record

variable {w w' : World K} {l : List (Did K)} {e : Did K}

theorem changes_of_mem [Scalar K] (h : Leads exec w l w') (he : e ∈ l) :
    Changes e.before e.op e.after := by
  obtain ⟨pre, hsuf⟩ := exists_suffix_of_mem he
  obtain ⟨_, c, hc⟩ := h.before hsuf
  exact changes_of_exec hc

/-- As long as calls only read, the cluster and the ledger are as they were. -/
theorem same_of_idle [Scalar K] (h : Leads exec w l w') (hidle : Idle (told l)) :
    w'.cluster = w.cluster ∧ w'.actionsLog = w.actionsLog := by
  have hread : ∀ e ∈ l, acts e.op = false := by
    intro e he
    exact hidle _ (mem_told.mpr ⟨e, he, rfl⟩)
  constructor
  · refine h.keeps_eq (f := World.cluster) fun e he => (changes_of_mem h he).cluster ?_
    by_contra hpatch
    have hacts := acts_of_isPatch (Bool.not_eq_false _ ▸ hpatch)
    rw [hread e he] at hacts
    cases hacts
  · refine h.keeps_eq (f := World.actionsLog) fun e he => ?_
    rcases (changes_of_mem h he).actionsLog with hsame | ⟨row, hop, _⟩
    · exact hsame
    · have hacts := hread e he
      rw [hop] at hacts
      cases hacts

/-- What was read before anything was done was read in the world as it was. -/
theorem read_of_idle [Scalar K] (h : Leads exec w l w') (hidle : Idle (told l)) {call : SysCall K}
    (hcall : call ∈ told l) :
    ∃ v c, v.cluster = w.cluster ∧ v.actionsLog = w.actionsLog
      ∧ (exec v call.op c).1 = call.res := by
  obtain ⟨e, he, rfl⟩ := mem_told.mp hcall
  obtain ⟨pre, hsuf⟩ := exists_suffix_of_mem he
  obtain ⟨hpre, c, hc⟩ := h.before hsuf
  have hidle' : Idle (told pre) := by
    intro call hcall
    obtain ⟨d, hd, rfl⟩ := mem_told.mp hcall
    refine hidle _ (mem_told.mpr ⟨d, ?_, rfl⟩)
    exact hsuf.subset (List.mem_cons_of_mem _ hd)
  obtain ⟨hcl, hlog⟩ := same_of_idle hpre hidle'
  exact ⟨e.before, c, hcl, hlog, congrArg Prod.fst hc⟩

/-- A write whose refusal changes nothing: when it shows an effect, it was accepted. -/
theorem accepted_of_faulty {f : Fault} {p : Except Err Unit × Cluster} {r : Except Err Unit}
    (hrefused : ∀ e, p.1 = .error e → p.2 = w.cluster)
    (h : faulty f w (p.1, { w with cluster := p.2 }) = (r, w'))
    (heff : acked r = true ∨ w'.cluster ≠ w.cluster) : p = (.ok (), w'.cluster) := by
  obtain ⟨res, cl⟩ := p
  cases res with
  | ok a =>
      -- accepted by the cluster: then it shows unless the request never arrived
      cases f with
      | none =>
          cases h
          rfl
      | before e =>
          cases h
          rcases heff with hok | hne
          · cases hok
          · exact absurd rfl hne
      | after e =>
          cases h
          rfl
  | error e =>
      obtain rfl : cl = w.cluster := hrefused e rfl
      have hsame : w'.cluster = w.cluster ∧ acked r = false := by
        cases f <;> cases h <;> exact ⟨rfl, rfl⟩
      rcases heff with hok | hne
      · rw [hsame.2] at hok
        cases hok
      · exact absurd hsame.1 hne

/-- **A patch that took effect is one the API server accepts.** -/
theorem sent_of_exec [Scalar K] {o : Op K} {c : Choice} {r : Except Err o.Res}
    (ho : isPatch o = true) (h : exec w o c = (r, w'))
    (heff : (⟨o, r⟩ : SysCall K).isOk = true ∨ w'.cluster ≠ w.cluster) :
    sent o w.cluster = (.ok (), w'.cluster) := by
  cases o with
  | patchDeployment name ns container cpu =>
      refine accepted_of_faulty (fun e => patchDeployment_error) h (heff.imp_left fun hok => ?_)
      cases r <;> first | rfl | cases hok
  | patchHpa name ns max =>
      refine accepted_of_faulty (fun e => patchHpa_error) h (heff.imp_left fun hok => ?_)
      cases r <;> first | rfl | cases hok
  | _ => cases ho

end Record

section

variable [Scalar K]

/-- What a rollback recalls from the ledger: the row its request names, and the patch it asks for. -/
inductive Recalls (req : Request) (w : World K) : ActionRow K → Op K → Prop where
  | mk {t : Uuid} {row : ActionRow K} {prior : Json K} {o : Op K} : req.action = "rollback" →
      req.targetActionId = some t → w.actionById t = some row → priorState row = some prior →
      reversal prior = .ok (some o) → Recalls req w row o

namespace Handling

variable (cfg : Config) (x : Handling K)

/-- The calls of the handling, newest first. -/
def record : List (Did K) := (handle cfg x.message).made exec x.choices x.before []

/-- The world it leaves behind. -/
def after : World K := ((handle cfg x.message).run exec x.choices x.before).2

theorem leads : Leads exec x.before (x.record cfg) (x.after cfg) :=
  Prog.made_leads .nil _ _

variable {cfg x} {e : Did K} {pre : List (Did K)}

/-- Every call of a handling is one `handle` may make. -/
theorem may (he : e :: pre <:+ x.record cfg) : May cfg x.message (told pre) e.op := by
  have hanswers : ∀ (h : History K) (w : World K) (o : Op K) (c : Choice),
      (anyAnswer (May cfg x.message)).gives h o (exec w o c).1 := by
    intro h w o c ho
    obtain ⟨a, ha⟩ := exec_local (w := w) (x := c) ho
    rw [ha]
    rfl
  have hnone : Allowed (anyAnswer (May cfg x.message)) ([] : List (Did K)) := by
    intro e pre hsuf
    simp at hsuf
  exact ((handle_obeys cfg x.message).made hnone hanswers x.choices).1 e pre he

/-! ## The patch -/

/-- Who patches, on what transcript. -/
theorem patched (he : e :: pre <:+ x.record cfg) (hpatch : isPatch e.op = true) :
    ∃ req, parseRequest x.message = .ok req
      ∧ ((∃ ref, Contains cfg req (told pre) e.op ref) ∨ ∃ row, Reverses req row (told pre) e.op) := by
  have hmay := may he
  generalize e.op = o at hmay hpatch
  generalize told pre = t at hmay
  cases hmay with
  | read ho => rw [acts_of_isPatch hpatch] at ho; cases ho
  | patch hp hc => exact ⟨_, hp, Or.inl ⟨_, hc⟩⟩
  | reverse hp hr => exact ⟨_, hp, Or.inr ⟨_, hr⟩⟩
  | insert => cases hpatch

theorem idle_of_patch (he : e :: pre <:+ x.record cfg) (hpatch : isPatch e.op = true) :
    Idle (told pre) := by
  obtain ⟨req, _, ⟨ref, hc⟩ | ⟨row, hr⟩⟩ := patched he hpatch
  · exact hc.idle
  · exact hr.idle

/-- Until its patch a handling leaves the cluster and the ledger as it found them. -/
theorem before_patch (he : e :: pre <:+ x.record cfg) (hpatch : isPatch e.op = true) :
    e.before.cluster = x.before.cluster ∧ e.before.actionsLog = x.before.actionsLog := by
  obtain ⟨hpre, _⟩ := (leads cfg x).before he
  exact same_of_idle hpre (idle_of_patch he hpatch)

/-- What a throttle or freeze patches it has found in the cluster. -/
theorem finds_of_contains (he : e :: pre <:+ x.record cfg) {req : Request} {o : Op K} {ref : Json K}
    (hc : Contains cfg req (told pre) o ref) : Finds req x.before.cluster o ref := by
  obtain ⟨hpre, _⟩ := (leads cfg x).before he
  have hidle := hc.idle
  generalize htold : told pre = t at hc
  cases hc with
  | throttle hact _ _ hsplit hne =>
      obtain ⟨v, c, hcl, _, hread⟩ := read_of_idle hpre hidle (htold ▸ List.mem_cons_self ..)
      exact .throttle hact hsplit (hcl ▸ exec_readDeployment hread) hne
  | freeze hact _ _ hsplit hfind hcur _ hne =>
      obtain ⟨v, c, hcl, _, hread⟩ := read_of_idle hpre hidle (htold ▸ List.mem_cons_self ..)
      refine .freeze hact hsplit ?_ hcur hne
      rw [Cluster.hpaOf, ← hcl, exec_listHpas hread]
      exact hfind

/-- What a rollback patches it has recalled from the ledger. -/
theorem recalls_of_reverses (he : e :: pre <:+ x.record cfg) {req : Request} {o : Op K}
    {row : ActionRow K} (hr : Reverses req row (told pre) o) : Recalls req x.before row o := by
  obtain ⟨hpre, _⟩ := (leads cfg x).before he
  have hidle := hr.idle
  obtain ⟨@⟨target, _, hroll, htarget, hprior, hwin⟩, hrev⟩ := hr
  have hmem : (⟨.actionById target, .ok (some row)⟩ : SysCall K) ∈ told pre := by
    generalize told pre = t at hwin
    cases hwin with
    | unlimited => exact List.mem_cons_self ..
    | checked => exact List.mem_cons_of_mem _ (List.mem_cons_self ..)
  obtain ⟨v, c, _, hlog, hread⟩ := read_of_idle hpre hidle hmem
  have hfound := exec_actionById_eq hread
  rw [World.actionById, hlog] at hfound
  exact .mk hroll htarget hfound hprior hrev

/-- **What a handling patches it has found in the world it began in.** -/
theorem patch_found (he : e :: pre <:+ x.record cfg) (hpatch : isPatch e.op = true) :
    ∃ req, parseRequest x.message = .ok req
      ∧ ((∃ ref, Finds req x.before.cluster e.op ref) ∨ ∃ row, Recalls req x.before row e.op) := by
  obtain ⟨req, hp, ⟨ref, hc⟩ | ⟨row, hr⟩⟩ := patched he hpatch
  · exact ⟨req, hp, Or.inl ⟨ref, finds_of_contains he hc⟩⟩
  · exact ⟨req, hp, Or.inr ⟨row, recalls_of_reverses he hr⟩⟩

/-- A handling patches once. -/
theorem patch_once (he : e :: pre <:+ x.record cfg) (hpatch : isPatch e.op = true) {d : Did K}
    (hd : d ∈ pre) : isPatch d.op = false := by
  by_contra hne
  have hacts := acts_of_isPatch (Bool.not_eq_false _ ▸ hne)
  have hidle : acts d.op = false := idle_of_patch he hpatch _ (mem_told.mpr ⟨d, hd, rfl⟩)
  rw [hidle] at hacts
  cases hacts

/-- After its patch a handling does not touch the cluster any more. -/
theorem cluster_after (he : e ∈ x.record cfg) (hpatch : isPatch e.op = true) :
    (x.after cfg).cluster = e.after.cluster := by
  refine (leads cfg x).changed_once (f := World.cluster) he ?_
  intro d pre hsuf hmem
  refine (changes_of_mem (leads cfg x) (hsuf.subset (List.mem_cons_self ..))).cluster ?_
  by_contra hne
  rw [patch_once hsuf (Bool.not_eq_false _ ▸ hne) hmem] at hpatch
  cases hpatch

/-- A handling without a patch that took effect leaves the cluster as it was. -/
theorem cluster_kept (h : ∀ e ∈ x.record cfg, ¬ TookEffect e) :
    (x.after cfg).cluster = x.before.cluster := by
  refine (leads cfg x).keeps_eq (f := World.cluster) fun e he => ?_
  by_contra hne
  have hpatch : isPatch e.op = true := by
    by_contra hno
    exact hne ((changes_of_mem (leads cfg x) he).cluster (Bool.not_eq_true _ ▸ hno))
  exact h e he ⟨hpatch, Or.inr hne⟩

/-- A patch that took effect was accepted, and what it made of the cluster is what is left. -/
theorem sent_of_tookEffect (he : e ∈ x.record cfg) (heff : TookEffect e) :
    sent e.op x.before.cluster = (.ok (), (x.after cfg).cluster) := by
  obtain ⟨hpatch, hcase⟩ := heff
  obtain ⟨pre, hsuf⟩ := exists_suffix_of_mem he
  rw [← (before_patch hsuf hpatch).1, cluster_after he hpatch]
  obtain ⟨_, c, hc⟩ := (leads cfg x).before hsuf
  exact sent_of_exec hpatch hc hcase

/-! ## The rows -/

/-- The row says that a throttle or freeze was executed, and one was: it patched what it found. -/
def Backed (cfg : Config) (x : Handling K) (row : ActionRow K) : Prop :=
  ∃ e ∈ x.record cfg, TookEffect e ∧ ∃ req ref, parseRequest x.message = .ok req
    ∧ Finds req x.before.cluster e.op ref ∧ row.result = .executed ∧ row.priorState = some ref

/-- **A handling only marks as executed, and refers back to, what it has done.** -/
theorem backed_of_insert (he : e :: pre <:+ x.record cfg) {row : ActionRow K}
    (hop : e.op = .insertAction row) :
    row.result ≠ .executed ∧ row.priorState = none ∨ Backed cfg x row := by
  have hmay := may he
  rw [hop] at hmay
  generalize htold : told pre = t at hmay
  cases hmay with
  | read ho => cases ho
  | patch _ hc => cases hc
  | reverse _ hr => cases hr.isPatch
  | insert hp ha =>
      cases ha with
      -- the only outcome that is executed: its patch stands right before the row
      | contained reason hc hok =>
          obtain ⟨d, pre', hd, hcall, hrest⟩ := told_split (u := [_, _]) htold
          have hd' := hd.trans ((List.suffix_cons e pre).trans he)
          have hfinds := finds_of_contains hd' (hrest ▸ hc)
          refine Or.inr ⟨d, hd'.subset (List.mem_cons_self ..), ?_, _, _, hp, ?_, rfl, rfl⟩
          · rw [← hcall] at hc hok
            exact ⟨hc.isPatch, Or.inl hok⟩
          · rw [← hcall] at hfinds
            exact hfinds
      | _ => exact Or.inl ⟨by rintro ⟨⟩, rfl⟩

/-- The world only grows while a message is handled. -/
theorem grown (he : e :: pre <:+ x.record cfg) : World.Le x.before e.before := by
  obtain ⟨hpre, _⟩ := (leads cfg x).before he
  refine hpre.keeps World.Le.refl (fun _ _ _ => World.Le.trans) fun d hd => ?_
  exact (changes_of_mem hpre hd).le

/-- **What a handling appends to the ledger**: rows of new ids, executed only where backed. -/
theorem appended (cfg : Config) (x : Handling K) :
    ∃ rows, (x.after cfg).actionsLog = x.before.actionsLog ++ rows
    ∧ ∀ row ∈ rows, (∀ r ∈ x.before.actionsLog, r.id ≠ row.id)
      ∧ (row.result ≠ .executed ∧ row.priorState = none ∨ Backed cfg x row) := by
  -- the record of a handling is a chain of calls, each of which appends one row or none
  have hrows : ∃ rows, (x.after cfg).actionsLog = x.before.actionsLog ++ rows
      ∧ ∀ row ∈ rows, ∃ e ∈ x.record cfg, e.op = .insertAction row
        ∧ e.before.admits row = true := by
    refine (leads cfg x).keeps (R := fun v w => ∃ rows, w.actionsLog = v.actionsLog ++ rows
      ∧ ∀ row ∈ rows, ∃ e ∈ x.record cfg, e.op = .insertAction row ∧ e.before.admits row = true)
      ?_ ?_ fun e he => ?_
    · intro w
      exact ⟨[], (List.append_nil _).symm, by simp⟩
    · intro u v w h hx
      obtain ⟨rows, hrows, hall⟩ := h
      obtain ⟨rows', hrows', hall'⟩ := hx
      refine ⟨rows ++ rows', by rw [hrows', hrows, List.append_assoc], ?_⟩
      intro row hrow
      exact (List.mem_append.mp hrow).elim (hall row) (hall' row)
    · rcases (changes_of_mem (leads cfg x) he).actionsLog with hsame | ⟨row, hop, hadm, happ⟩
      · exact ⟨[], by rw [hsame, List.append_nil], by simp⟩
      · refine ⟨[row], happ, ?_⟩
        intro row' hrow'
        obtain rfl := List.mem_singleton.mp hrow'
        exact ⟨e, he, hop, hadm⟩
  obtain ⟨rows, hlog, hall⟩ := hrows
  refine ⟨rows, hlog, fun row hrow => ?_⟩
  obtain ⟨e, he, hop, hadm⟩ := hall row hrow
  obtain ⟨pre, hsuf⟩ := exists_suffix_of_mem he
  refine ⟨fun r hr => ?_, backed_of_insert hsuf hop⟩
  simp only [World.admits, Bool.and_eq_true, List.all_eq_true, decide_eq_true_eq] at hadm
  exact hadm.1.1.1.1 r ((grown hsuf).actionsLog.subset hr)

end Handling

end

end HyperTrace.Executor
