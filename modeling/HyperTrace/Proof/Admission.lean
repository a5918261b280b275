import HyperTrace.Proof.Dwell
import HyperTrace.Proof.Lineage

/-!
# No constraint ever refuses a row

`actions_log` has a primary key, three foreign keys and a check; `anomalies` has a
primary key, and a check on its confidence. A handler that runs into one of them
raises, its message is dropped, and what it was about to record is lost. None of them
ever does: ids are drawn afresh, whatever a row refers to is the row it follows, or a
row that one refers to, and the detector's confidence is a sum of clamped terms.
-/

namespace HyperTrace.Proof

open HyperTrace Effect

variable {K : Type} [Scalar K]

variable {cfg : Settings} {P : SysConfig K → SysAct K → Prop} {c : SysConfig K}

/-- What a ledger row refers to stays in the ledger. -/
theorem reference_of_row (h : (system cfg).Run P (World.empty K) c) {row : ActionRow K}
    (hrow : row ∈ c.world.actionsLog) {r : Uuid} (hr : row.rollbackRef = some r) :
    ∃ q ∈ c.world.actionsLog, q.id = r := by
  rcases row_inserted h hrow with hw | ⟨e, pre, he, _, hadm, _⟩
  · cases hw
  · simp only [World.admits, Bool.and_eq_true, hr, Option.all_some, List.any_eq_true,
      decide_eq_true_eq] at hadm
    obtain ⟨q, hq, hid⟩ := hadm.1.2
    have hle := (changes_of_suffix h he).le.trans
      (h.le_of_mem (grows cfg) (he.subset (List.mem_cons_self ..)))
    exact ⟨q, hle.actionsLog.subset hq, hid⟩

/-- Every row has one of the modes the table allows. -/
theorem mode_of_insert (hP : ∀ c a, P c a → noForgery c a = true)
    (h : (system cfg).Run P (World.empty K) c) {e : SysEvent K} {pre : List (SysEvent K)}
    (he : e :: pre <:+ c.trace) {row : ActionRow K} (hop : e.op = .insertAction row) :
    modeAllowed row.mode = true := by
  have hcalls := calls_of_suffix h he
  rw [hop] at hcalls
  generalize htag : e.tag = tag at hcalls
  generalize ht : hist pre e.tid = t at hcalls
  have hapi : ∀ {reads : History K → Api.Dispatch → Prop}, Api.May reads t (.insertAction row) →
      modeAllowed row.mode = true := by
    intro reads hmay
    cases hmay with
    | read ho => cases ho
    | insert => rfl
    | fail => rfl
  cases inserted_by hcalls with
  | @decision ma h₀ policy action res mode id now hd =>
      obtain ⟨_, _, _, _, hv⟩ := hd
      have hmode := congrArg Prod.snd hv
      show modeAllowed mode = true
      rw [show mode = _ from hmode, Decision.verdict]
      -- every case of the cascade has its own mode
      split_ifs <;> rfl
  | approve hmay => exact hapi hmay
  | rollback hmay => exact hapi hmay
  | execute hp ha => exact (outcome_resolves hP h he htag hp ha ht).mode

/-- **Whatever a row refers to is there before it is written.** -/
theorem resolves_of_insert (hP : ∀ c a, P c a → noForgery c a = true)
    (h : (system cfg).Run P (World.empty K) c) {e : SysEvent K} {pre : List (SysEvent K)}
    (he : e :: pre <:+ c.trace) {row : ActionRow K} (hop : e.op = .insertAction row) :
    Resolves row e.before := by
  have hmode := mode_of_insert hP h he hop
  obtain ⟨c₀, _, _, hr, _, hw, _, hth, _⟩ := h.origin he
  rcases follows_of_insert hP h he hop with hroot | ⟨p, hp, hf⟩
  -- a decision refers to its anomaly alone
  · have hcalls := calls_of_suffix h he
    rw [hop] at hcalls
    generalize htag : e.tag = tag at hcalls
    generalize hist pre e.tid = t at hcalls
    have hapi : ∀ {reads : History K → Api.Dispatch → Prop},
        ¬ Api.May reads t (.insertAction row) := by
      intro reads hmay
      cases hmay with
      | read ho => cases ho
      | insert => cases hroot
      | fail => cases hroot
    cases inserted_by hcalls with
    | @decision ma =>
        obtain ⟨⟨a, ha, hid, _⟩, _⟩ := recorded_of_thread hr hth htag
        refine ⟨fun b hb => ⟨a, hw ▸ ha, hid.trans (Option.some.inj hb)⟩, ?_, ?_, hmode⟩
        · intro q hq
          cases hq
        · intro q hq
          cases hq
    | approve hmay => exact absurd hmay hapi
    | rollback hmay => exact absurd hmay hapi
    | execute => cases hroot
  · refine ⟨fun b hb => ?_, fun q hq => ⟨p, hp, ?_⟩, fun q hq => ?_, hmode⟩
    · rw [← hw]
      exact anomaly_of_row hr rfl (hw ▸ hp) (hf.anomaly.symm.trans hb)
    · exact Option.some.inj (hf.parent.symm.trans hq)
    · cases hf.continues with
      | approval _ _ _ _ _ hnone => exact absurd (hnone.symm.trans hq) (by simp)
      | refusal _ _ _ _ hnone => exact absurd (hnone.symm.trans hq) (by simp)
      | reversal _ _ _ _ href => exact ⟨p, hp, Option.some.inj (href.symm.trans hq)⟩
      | outcome _ _ _ _ href =>
          rcases href with hnone | ⟨_, hsame⟩
          · exact absurd (hnone.symm.trans hq) (by simp)
          -- the row the request refers to, which its own row refers to
          · rw [← hw]
            exact reference_of_row hr (hw ▸ hp) (hsame.symm.trans hq)

/--
**Every row that is written is one its table admits.**

Whoever writes it, after whatever failed and whatever was delivered again: no insert
into the ledger or among the anomalies is ever refused by a key or a check, so an
insert only fails when the database does.
-/
theorem insert_admitted (h : (system cfg).Run (fun c a => noForgery c a) (World.empty K) c)
    {e : SysEvent K} {pre : List (SysEvent K)} (he : e :: pre <:+ c.trace) :
    (∀ row, e.op = .insertAction row → e.before.admits row = true)
      ∧ ∀ row, e.op = .insertAnomaly row → e.before.admitsAnomaly row = true := by
  obtain ⟨c₀, _, _, hr, _, hw, htr, _⟩ := h.origin he
  have hcalls := calls_of_suffix h he
  constructor
  · intro row hop
    rw [hop] at hcalls
    obtain ⟨l, t, hhist, hl⟩ := uuid_of_insert hcalls
    exact admits_of_resolves (hw ▸ fresh_of_uuid4 hr rfl (htr ▸ hhist) hl)
      (resolves_of_insert (fun _ _ hp => hp) h he hop)
  · intro row hop
    rw [hop] at hcalls
    obtain ⟨_, f, id, now, t, _, hflags, rfl, ht⟩ := anomaly_inserted_by hcalls
    exact admitsAnomaly_iff.mpr ⟨hw ▸ fresh_anomaly hr (htr ▸ ht), hflags.confidence_allowed⟩

namespace Scenario

/-- The call inserts an anomaly, or the outcome of a rollback. -/
def insertsAnomaly : Op ℚ → Bool
  | .insertAnomaly _ => true
  | _ => false

def insertsRollback : Op ℚ → Bool
  | .insertAction row => row.result = .rolledBack
  | _ => false

end Scenario

open Scenario in
/-- The anomaly, and the row of the rollback with all of its references. -/
theorem insert_admitted_rolledBack :
    ∃ (c : SysConfig ℚ) (e e' : SysEvent ℚ) (a : AnomalyRow ℚ) (row : ActionRow ℚ),
      e ∈ c.trace ∧ e.op = .insertAnomaly a ∧ e.before.admitsAnomaly a = true
        ∧ e' ∈ c.trace ∧ e'.op = .insertAction row ∧ row.result = .rolledBack
        ∧ e'.before.admits row = true := by
  obtain ⟨c, hrun, hcheck⟩ := System.exists_run (S := system settings) (w := World.empty ℚ)
    (p := noForgery) (l := rolledBack)
    (q := fun c => (c.trace.any fun e => insertsAnomaly e.op)
      && c.trace.any fun e => insertsRollback e.op) (by decide +kernel)
  simp only [Bool.and_eq_true, List.any_eq_true] at hcheck
  obtain ⟨⟨e, he, ha⟩, e', he', hr⟩ := hcheck
  obtain ⟨a, hop⟩ : ∃ a, e.op = .insertAnomaly a := by
    revert ha
    cases e.op <;> first | exact fun _ => ⟨_, rfl⟩ | exact fun h => by cases h
  obtain ⟨row, hop', hres⟩ : ∃ row, e'.op = .insertAction row ∧ row.result = .rolledBack := by
    revert hr
    cases e'.op <;> first | exact fun h => ⟨_, rfl, of_decide_eq_true h⟩ | exact fun h => by cases h
  obtain ⟨pre, hpre, _⟩ := hrun.origin_of_mem he
  obtain ⟨pre', hpre', _⟩ := hrun.origin_of_mem he'
  exact ⟨c, e, e', a, row, he, hop, (insert_admitted hrun hpre).2 a hop, he', hop', hres,
    (insert_admitted hrun hpre').1 row hop'⟩

end HyperTrace.Proof
