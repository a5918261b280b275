import HyperTrace.Frontend.Incidents
import HyperTrace.Proof.BlastRadius
import HyperTrace.Proof.Reversal
import Mathlib.Data.Finset.Max

/-!
# What the incident feed offers

The feed does not follow the references between the rows of the ledger. It takes
the rows of an anomaly in the order of their times, and whatever dispatched row
comes last stands for the answer to every pending one, whatever `rolled_back` row
comes last for the reversal of every executed one. In a ledger the services wrote a
row is later than the row it refers to, so a button that is shown is always
rightly shown. A button is hidden wrongly exactly when the last word was not about
all of the rows it hides: the dispatch failed, or was a rollback request, or another
row was answered or reversed.
-/

namespace HyperTrace.Frontend

open Api

variable {α : Type} {l : List α} {p q : α → Bool}

theorem latest_append (x : α) :
    latest (l ++ [x]) p = if p x then (l.length : ℤ) else latest l p := by
  simp [latest, List.zipIdx_append]

theorem latest_lt_length : latest l p < l.length := by
  induction l using List.reverseRecOn with
  | nil => simp [latest]
  | append_singleton l x ih =>
      rw [latest_append]
      split
      · simp
      · simp only [List.length_append, List.length_singleton, Nat.cast_add, Nat.cast_one]
        omega

/-- **The positions compared**: the last of the one kind comes after all of the other kind. -/
theorem latest_lt_iff {key : α → ℤ} (h : l.Pairwise fun a b => key a < key b) :
    0 ≤ latest l p ∧ latest l q < latest l p
      ↔ ∃ x ∈ l, p x = true ∧ ∀ y ∈ l, q y = true → key y < key x := by
  induction l using List.reverseRecOn with
  | nil => simp [latest]
  | append_singleton l x ih =>
      obtain ⟨hl, -, hlast⟩ := List.pairwise_append.mp h
      have hlt : ∀ y ∈ l, key y < key x := fun y hy => hlast y hy x (List.mem_singleton_self x)
      have hmem : ∀ {y}, y ∈ l ++ [x] ↔ y ∈ l ∨ y = x := by simp
      rw [latest_append, latest_append]
      by_cases hq : q x = true
      -- the newest row is of the other kind
      · rw [if_pos hq]
        constructor
        · intro hpos
          split at hpos
          · omega
          · have := latest_lt_length (l := l) (p := p)
            omega
        · intro hex
          obtain ⟨y, hy, _, hafter⟩ := hex
          have hxy := hafter x (hmem.mpr (Or.inr rfl)) hq
          rcases hmem.mp hy with hy | rfl
          · exact absurd (hxy.trans (hlt y hy)) (lt_irrefl _)
          · exact absurd hxy (lt_irrefl _)
      · rw [if_neg hq]
        have hother : ∀ {y}, y ∈ l ++ [x] → q y = true → y ∈ l := by
          intro y hy hqy
          rcases hmem.mp hy with hy | rfl
          · exact hy
          · exact absurd hqy hq
        by_cases hp : p x = true
        -- the newest row is the one looked for
        · rw [if_pos hp]
          have := latest_lt_length (l := l) (p := q)
          refine iff_of_true ⟨Int.natCast_nonneg _, this⟩
            ⟨x, hmem.mpr (Or.inr rfl), hp, fun y hy hqy => hlt y (hother hy hqy)⟩
        · rw [if_neg hp, ih hl]
          constructor
          · intro hex
            obtain ⟨y, hy, hpy, hafter⟩ := hex
            exact ⟨y, hmem.mpr (Or.inl hy), hpy, fun z hz hqz => hafter z (hother hz hqz) hqz⟩
          · intro hex
            obtain ⟨y, hy, hpy, hafter⟩ := hex
            rcases hmem.mp hy with hy | rfl
            · exact ⟨y, hy, hpy, fun z hz hqz => hafter z (hmem.mpr (Or.inl hz)) hqz⟩
            · exact absurd hpy hp

end HyperTrace.Frontend

namespace HyperTrace.Proof

open HyperTrace Effect Frontend

variable {K : Type}

/-! ## The latest of two kinds -/

section Kinds

variable {α : Type} {rows : List α} {time : α → ℤ} {opens closes : α → Bool} {Open : α → Prop}

/-- What opens something comes after everything that closes anything. -/
def Reopened (rows : List α) (time : α → ℤ) (opens closes : α → Bool) : Prop :=
  ∃ x ∈ rows, opens x = true ∧ ∀ y ∈ rows, closes y = true → time y < time x

/-- Something that closes comes after everything that was opened. -/
def Overtaken (rows : List α) (time : α → ℤ) (opens closes : α → Bool) : Prop :=
  ∃ y ∈ rows, closes y = true ∧ ∀ x ∈ rows, opens x = true → time x < time y

theorem not_reopened_of_overtaken (h : Overtaken rows time opens closes) :
    ¬ Reopened rows time opens closes := by
  intro hre
  obtain ⟨y, hy, hcloses, hlast⟩ := h
  obtain ⟨x, hx, hopens, hafter⟩ := hre
  exact absurd ((hafter y hy hcloses).trans (hlast x hx hopens)) (lt_irrefl _)

theorem overtaken_of_not_reopened
    (hne : ∀ x ∈ rows, ∀ y ∈ rows, opens x = true → closes y = true → time x ≠ time y)
    {x : α} (hx : x ∈ rows) (hopens : opens x = true) (h : ¬ Reopened rows time opens closes) :
    Overtaken rows time opens closes := by
  classical
  -- look at the last one that was opened
  obtain ⟨z, hz, hmax⟩ := (rows.filter opens).toFinset.exists_max_image time
    ⟨x, by simpa using ⟨hx, hopens⟩⟩
  simp only [List.mem_toFinset, List.mem_filter] at hz hmax
  have hclosed : ∃ y ∈ rows, closes y = true ∧ time z ≤ time y := by
    by_contra hnone
    push Not at hnone
    exact h ⟨z, hz.1, hz.2, hnone⟩
  obtain ⟨y, hy, hcloses, hle⟩ := hclosed
  refine ⟨y, hy, hcloses, fun x' hx' hopens' => ?_⟩
  have hlt : time z < time y := lt_of_le_of_ne hle (hne z hz.1 y hy hz.2 hcloses)
  exact lt_of_le_of_lt (hmax x' ⟨hx', hopens'⟩) hlt

/--
**Where the order of the latest two tells whether anything is open.**

Provided that whatever closes something comes after it.
-/
theorem reopened_iff_open
    (hne : ∀ x ∈ rows, ∀ y ∈ rows, opens x = true → closes y = true → time x ≠ time y)
    (hopens : ∀ x, Open x → x ∈ rows ∧ opens x = true)
    (hafter : ∀ x ∈ rows, opens x = true → (∀ y ∈ rows, closes y = true → time y < time x) →
      Open x) :
    (Reopened rows time opens closes ↔ ∃ x, Open x)
      ↔ (Overtaken rows time opens closes → ∀ x, ¬ Open x) := by
  constructor
  · intro h hover x hx
    exact not_reopened_of_overtaken hover (h.mpr ⟨x, hx⟩)
  · intro h
    constructor
    · intro hre
      obtain ⟨x, hx, hxo, hlast⟩ := hre
      exact ⟨x, hafter x hx hxo hlast⟩
    · intro hex
      obtain ⟨x, hx⟩ := hex
      by_contra hre
      have hover := overtaken_of_not_reopened hne (hopens x hx).1 (hopens x hx).2 hre
      exact h hover x hx

end Kinds

/-! ## A row is later than the row it refers to -/

section

variable [Scalar K] {cfg : Settings} {c : SysConfig K}
variable {P : SysConfig K → SysAct K → Prop} {w : World K}

/-- The stamp of a row is read before the row is written. -/
theorem stamp_of_insert {tag : Tag K} {t : History K} {row : ActionRow K}
    (h : InsertedBy cfg row tag t) : (⟨.now, .ok row.executedAt⟩ : SysCall K) ∈ t := by
  cases h with
  | decision => exact .head _
  | approve hmay =>
      cases hmay with
      | read ho => cases ho
      | insert => exact .head _
      | fail => exact .head _
  | rollback hmay =>
      cases hmay with
      | read ho => cases ho
      | insert => exact .head _
      | fail => exact .head _
  | execute => exact .tail _ (.head _)

/-- **No row is stamped with a time to come.** -/
theorem executedAt_le_clock (h : (system cfg).Run P (World.empty K) c) {row : ActionRow K}
    (hrow : row ∈ c.world.actionsLog) : row.executedAt ≤ c.world.clock := by
  rcases row_inserted h hrow with hw | ⟨e, pre, he, hop, _⟩
  · cases hw
  · have hcalls := calls_of_suffix h he
    rw [hop] at hcalls
    have hstamp := now_le_time h he (stamp_of_insert (inserted_by hcalls))
    have hgrows := (h.le_of_mem (grows cfg) (he.subset (List.mem_cons_self ..))).clock
    rw [(changes_of_suffix h he).clock] at hgrows
    exact hstamp.trans hgrows

/-- **A row that was read before the clock was is no later.** -/
theorem executedAt_le_now (h : (system cfg).Run P (World.empty K) c) {e : SysEvent K}
    {pre : List (SysEvent K)} (he : e :: pre <:+ c.trace) {now : Time} {l t : History K}
    (ht : hist pre e.tid = l ++ ⟨.now, .ok now⟩ :: t) {call : SysCall K} (hcall : call ∈ t)
    {row : ActionRow K} (hreads : ∀ {v v' : World K} {x : Choice},
      exec v call.op x = (call.res, v') → row ∈ v.actionsLog) :
    row ∈ c.world.actionsLog ∧ row.executedAt ≤ now := by
  have hpre : pre <:+ c.trace := (List.suffix_cons e pre).trans he
  obtain ⟨en, pren, x, hen, _, _, htn, hxn⟩ := answered_after h hpre ht
  have hen' := hen.trans hpre
  obtain ⟨er, prer, xr, her, _, _, hxr⟩ :=
    answered h ((List.suffix_cons en pren).trans hen') (htn ▸ hcall)
  have her' := her.trans ((List.suffix_cons en pren).trans hen')
  have hrow := hreads hxr
  have hmem := her.subset (List.mem_cons_self ..)
  obtain ⟨c₀, _, _, hr₀, _, hw₀, _⟩ := h.origin her'
  have hch := changes_of_exec hxr
  constructor
  · exact (h.le_of_mem (grows cfg) (her'.subset (List.mem_cons_self ..))).actionsLog.subset
      (hch.le.actionsLog.subset hrow)
  · calc row.executedAt ≤ er.before.clock := hw₀ ▸ executedAt_le_clock hr₀ (hw₀ ▸ hrow)
      _ = er.after.clock := hch.clock.symm
      _ ≤ en.before.clock := (h.le_of_suffix (grows cfg) hen' hmem).clock
      _ = now := (exec_now (congrArg Prod.fst hxn)).symm

/-- The ids of the ledger are a key. -/
theorem action_ids_nodup (h : (system cfg).Run P (World.empty K) c) :
    (c.world.actionsLog.map ActionRow.id).Nodup := by
  refine h.keeps (I := fun v _ => (v.actionsLog.map ActionRow.id).Nodup) List.nodup_nil ?_ ?_ ?_
  · intro c x w' tag p hst ih
    rw [(start_starts hst).1.actionsLog]
    exact ih
  · intro c i x tag o k _ _ _ _ ih
    dsimp only [system]
    rcases (exec_changes c.world o x).actionsLog with h | ⟨row, _, hadm, h⟩
    · rwa [h]
    -- the insert is only admitted when the id is new
    · simp only [World.admits, Bool.and_eq_true, List.all_eq_true, decide_eq_true_eq] at hadm
      obtain ⟨⟨⟨⟨hnew, _⟩, _⟩, _⟩, _⟩ := hadm
      rw [h, List.map_append, List.map_singleton, ← List.concat_eq_append]
      refine List.Nodup.concat (fun hid => ?_) ih
      obtain ⟨r, hr, hrid⟩ := List.mem_map.mp hid
      exact hnew r hr hrid
  · intro c v ih
    cases v <;> exact ih

theorem action_unique (h : (system cfg).Run P (World.empty K) c) {r r' : ActionRow K}
    (hr : r ∈ c.world.actionsLog) (hr' : r' ∈ c.world.actionsLog) (hid : r.id = r'.id) : r = r' :=
  List.inj_on_of_nodup_map (action_ids_nodup h) hr hr' hid

/-- Whoever dispatches on the strength of a row has read it before the clock. -/
theorem parent_of_dispatched {tag : Tag K} {t : History K} {row : ActionRow K}
    (h : InsertedBy cfg row tag t) (hres : row.result = .dispatched) {p : Uuid}
    (hp : row.parentActionId = some p) :
    ∃ l t' a res parent, t = l ++ ⟨.now, .ok row.executedAt⟩ :: t' ∧ parent.id = p
      ∧ (⟨.latestAction a res, .ok (some parent)⟩ : SysCall K) ∈ t' := by
  cases h with
  | decision => cases hp
  | approve hmay =>
      cases hmay with
      | read ho => cases ho
      | insert hd =>
          obtain ⟨parent, service, _⟩ := hd
          exact ⟨[], _, _, _, parent, rfl, Option.some.inj hp, .tail _ (.tail _ (.head _))⟩
      | fail => cases hres
  | rollback hmay =>
      cases hmay with
      | read ho => cases ho
      | insert hd =>
          obtain ⟨parent, _⟩ := hd
          exact ⟨[], _, _, _, parent, rfl, Option.some.inj hp, .tail _ (.head _)⟩
      | fail => cases hres
  | execute _ ha => cases ha <;> cases hres

/-- Whoever records a reversal has read the reversed row before the clock. -/
theorem reference_of_rolledBack {tag : Tag K} {t : History K} {row : ActionRow K}
    (h : InsertedBy cfg row tag t) (hres : row.result = .rolledBack) :
    ∃ l t' id target, t = l ++ ⟨.now, .ok row.executedAt⟩ :: t' ∧ row.rollbackRef = some target.id
      ∧ (⟨.actionById id, .ok (some target)⟩ : SysCall K) ∈ t' := by
  obtain ⟨m, req, id, now, h₀, res, extra, _, _, rfl, rfl, ha⟩ :=
    executor_of_inserted h (Or.inl (by rw [hres]; rfl))
  cases ha with
  | @reversed target _ call hrev =>
      obtain ⟨hl, _⟩ := hrev
      obtain @⟨asked, _, _, _, _, hwin⟩ := hl
      refine ⟨[_], _, asked, target, rfl, rfl, .tail _ ?_⟩
      cases hwin with
      | unlimited => exact .head _
      | checked => exact .tail _ (.head _)
  | _ => cases hres

/-- **An answer comes after the pending row it answers.** -/
theorem pending_le_answer (h : (system cfg).Run P (World.empty K) c) {p d : ActionRow K}
    (hp : p ∈ c.world.actionsLog) (hd : d ∈ c.world.actionsLog) (hans : answers p.id d = true) :
    p.executedAt ≤ d.executedAt := by
  simp only [answers, Bool.and_eq_true, decide_eq_true_eq] at hans
  obtain ⟨⟨hres, hparent⟩, _⟩ := hans
  rcases row_inserted h hd with hw | ⟨e, pre, he, hop, _⟩
  · cases hw
  · have hcalls := calls_of_suffix h he
    rw [hop] at hcalls
    obtain ⟨l, t, a, res, parent, ht, hid, hread⟩ :=
      parent_of_dispatched (inserted_by hcalls) hres hparent
    obtain ⟨hlog, hle⟩ := executedAt_le_now h he ht hread
      fun hx => (exec_latestAction (congrArg Prod.fst hx)).1
    rwa [action_unique h hlog hp hid] at hle

/-- **A reversal comes after the executed row it reverses.** -/
theorem executed_le_reversal (h : (system cfg).Run P (World.empty K) c) {r b : ActionRow K}
    (hr : r ∈ c.world.actionsLog) (hb : b ∈ c.world.actionsLog) (hrev : reverses r.id b = true) :
    r.executedAt ≤ b.executedAt := by
  simp only [reverses, Bool.and_eq_true, decide_eq_true_eq] at hrev
  obtain ⟨hres, href⟩ := hrev
  rcases row_inserted h hb with hw | ⟨e, pre, he, hop, _⟩
  · cases hw
  · have hcalls := calls_of_suffix h he
    rw [hop] at hcalls
    obtain ⟨l, t, id, target, ht, htarget, hread⟩ :=
      reference_of_rolledBack (inserted_by hcalls) hres
    obtain ⟨hlog, hle⟩ := executedAt_le_now h he ht hread
      fun hx => (exec_actionById (congrArg Prod.fst hx)).1
    have hid : target.id = r.id := Option.some.inj (htarget.symm.trans href)
    rwa [action_unique h hlog hr hid] at hle

end

/-! ## The feed reads the ledger -/

/-- The ledger history of an anomaly. -/
def ledgerOf (w : World K) (anomalyId : Uuid) : List (ActionRow K) :=
  w.actionsLog.filter fun r => r.anomalyId = some anomalyId

/-- What the feed fetches. -/
def fetched (w : World K) (tie : Nat → Nat) : List Api.ActionOut :=
  Api.listActions actionsWindow tie w.actionsLog

/-- All rows of the anomaly are in the fetched window, no two of them with one time. -/
structure Seen (w : World K) (tie : Nat → Nat) (anomalyId : Uuid) : Prop where
  window : ∀ r ∈ ledgerOf w anomalyId, Api.actionOut r ∈ fetched w tie
  /-- The times as the feed compares them. -/
  distinct : ((ledgerOf w anomalyId).map fun r => dateParse r.executedAt).Nodup

def hasResult (res : ActionResult) (r : ActionRow K) : Bool := r.result = res

section Feed

variable {w : World K} {tie : Nat → Nat} {a : Uuid}

theorem mem_ledgerOf {r : ActionRow K} :
    r ∈ ledgerOf w a ↔ r ∈ w.actionsLog ∧ r.anomalyId = some a := by
  simp [ledgerOf]

theorem mem_related (hs : Seen w tie a) {x : Api.ActionOut} :
    x ∈ related (fetched w tie) a ↔ ∃ r ∈ ledgerOf w a, Api.actionOut r = x := by
  rw [related, List.mem_insertionSort, List.mem_filter, decide_eq_true_eq]
  constructor
  · intro h
    obtain ⟨hx, hanomaly⟩ := h
    obtain ⟨r, hr, rfl⟩ := List.mem_map.mp hx
    exact ⟨r, mem_ledgerOf.mpr ⟨mem_orderBy.mp (List.mem_of_mem_take hr), hanomaly⟩, rfl⟩
  · intro h
    obtain ⟨r, hr, rfl⟩ := h
    exact ⟨hs.window r hr, (mem_ledgerOf.mp hr).2⟩

theorem related_sorted (hs : Seen w tie a) : (related (fetched w tie) a).Pairwise fun x y =>
    dateParse x.executedAt < dateParse y.executedAt := by
  let r : Api.ActionOut → Api.ActionOut → Prop := fun x y =>
    dateParse x.executedAt ≤ dateParse y.executedAt
  have : Std.Total r := ⟨fun x y => le_total _ _⟩
  have : IsTrans Api.ActionOut r := ⟨fun x y z hxy hyz => le_trans hxy hyz⟩
  have hle := List.pairwise_insertionSort r
    ((fetched w tie).filter fun a' => a'.anomalyId = some a)
  have hkeys : ((related (fetched w tie) a).map fun x => dateParse x.executedAt).Nodup := by
    -- the rows fetched of the anomaly are rows of its history, each at most once
    let rows := (orderBy (fun row : ActionRow K => - row.executedAt) tie w.actionsLog)
    have hsub : ((rows.take actionsWindow).filter fun r => r.anomalyId = some a).Subperm
        (ledgerOf w a) :=
      ((List.take_sublist _ _).filter _).subperm.trans
        ((orderBy_perm _ tie w.actionsLog).filter _).subperm
    have hfetched : (fetched w tie).filter (fun a' => a'.anomalyId = some a)
        = ((rows.take actionsWindow).filter fun r => r.anomalyId = some a).map Api.actionOut :=
      List.filter_map
    have hperm : (related (fetched w tie) a).Perm
        (((rows.take actionsWindow).filter fun r => r.anomalyId = some a).map Api.actionOut) :=
      hfetched ▸ List.perm_insertionSort r _
    rw [(hperm.map _).nodup_iff, List.map_map]
    obtain ⟨l, hl, hsubl⟩ := hsub
    exact (hl.map _).nodup_iff.mp ((hsubl.map _).nodup hs.distinct)
  have hne := List.pairwise_map.mp hkeys
  exact (hle.and hne).imp fun h => lt_of_le_of_ne h.1 h.2

theorem eq_of_dateParse (hs : Seen w tie a) {x y : ActionRow K} (hx : x ∈ ledgerOf w a)
    (hy : y ∈ ledgerOf w a) (h : dateParse x.executedAt = dateParse y.executedAt) : x = y :=
  List.inj_on_of_nodup_map hs.distinct hx hy h

theorem dateParse_mono {x y : Time} (h : x ≤ y) : dateParse x ≤ dateParse y :=
  Int.ediv_le_ediv (by decide) h

theorem dateParse_lt_iff (hs : Seen w tie a) {x y : ActionRow K} (hx : x ∈ ledgerOf w a)
    (hy : y ∈ ledgerOf w a) :
    dateParse y.executedAt < dateParse x.executedAt ↔ y.executedAt < x.executedAt := by
  constructor
  · intro h
    by_contra hle
    exact absurd (dateParse_mono (not_lt.mp hle)) (not_le.mpr h)
  · intro h
    refine lt_of_le_of_ne (dateParse_mono h.le) fun heq => ?_
    rw [eq_of_dateParse hs hy hx heq] at h
    exact absurd h (lt_irrefl _)

/-- **What a comparison of two positions says about the ledger.** -/
theorem reopened_of_positions (hs : Seen w tie a) (res other : ActionResult) :
    (0 ≤ latest (related (fetched w tie) a) (fun r => r.result = res)
      ∧ latest (related (fetched w tie) a) (fun r => r.result = other)
        < latest (related (fetched w tie) a) fun r => r.result = res)
      ↔ Reopened (ledgerOf w a) ActionRow.executedAt (hasResult res) (hasResult other) := by
  rw [latest_lt_iff (related_sorted hs)]
  constructor
  · intro h
    obtain ⟨x, hx, hres, hafter⟩ := h
    obtain ⟨r, hr, rfl⟩ := (mem_related hs).mp hx
    refine ⟨r, hr, hres, fun y hy hother => ?_⟩
    exact (dateParse_lt_iff hs hr hy).mp (hafter _ ((mem_related hs).mpr ⟨y, hy, rfl⟩) hother)
  · intro h
    obtain ⟨r, hr, hres, hafter⟩ := h
    refine ⟨Api.actionOut r, (mem_related hs).mpr ⟨r, hr, rfl⟩, hres, fun y hy hother => ?_⟩
    obtain ⟨r', hr', rfl⟩ := (mem_related hs).mp hy
    exact (dateParse_lt_iff hs hr hr').mpr (hafter r' hr' hother)

end Feed

/-- No failure of the dispatch was recorded. -/
def Stands (rows : List (ActionRow K)) (d : ActionRow K) : Prop :=
  ∀ f ∈ rows, f.result = .dispatchFailed → f.parentActionId ≠ some d.id

instance (rows : List (ActionRow K)) (d : ActionRow K) : Decidable (Stands rows d) :=
  inferInstanceAs (Decidable (∀ f ∈ rows, _))

/-- A pending row without an answer that stands. -/
def Awaiting (rows : List (ActionRow K)) (p : ActionRow K) : Prop :=
  p ∈ rows ∧ hasResult .pendingApproval p = true
    ∧ ∀ d ∈ rows, answers p.id d = true → ¬ Stands rows d

/-- An executed row that no reversal refers to. -/
def Reversible (rows : List (ActionRow K)) (r : ActionRow K) : Prop :=
  r ∈ rows ∧ hasResult .executed r = true ∧ ∀ b ∈ rows, reverses r.id b = false

/-- The buttons are those the ledger calls for. -/
structure Offered (rows : List (ActionRow K)) (shown : Controls) : Prop where
  approve : shown.approve = true ↔ ∃ p, Awaiting rows p
  rollBack : shown.rollBack = true ↔ ∃ r, Reversible rows r

/-- Where a button is hidden by a later row, there is nothing left to do. -/
structure HidesNothing (rows : List (ActionRow K)) : Prop where
  approve : Overtaken rows ActionRow.executedAt (hasResult .pendingApproval)
      (hasResult .dispatched) → ∀ p, ¬ Awaiting rows p
  rollBack : Overtaken rows ActionRow.executedAt (hasResult .executed) (hasResult .rolledBack) →
    ∀ r, ¬ Reversible rows r

section

variable [Scalar K] {cfg : Settings} {c : SysConfig K}
variable {P : SysConfig K → SysAct K → Prop} {tie : Nat → Nat} {a : Uuid}

omit [Scalar K] in
theorem time_ne_of_results {w : World K} (hs : Seen w tie a) {res other : ActionResult}
    (hne : res ≠ other) : ∀ x ∈ ledgerOf w a, ∀ y ∈ ledgerOf w a, hasResult res x = true →
      hasResult other y = true → x.executedAt ≠ y.executedAt := by
  intro x hx y hy hres hother heq
  obtain rfl := eq_of_dateParse hs hx hy (congrArg dateParse heq)
  simp only [hasResult, decide_eq_true_eq] at hres hother
  exact hne (hres.symm.trans hother)

theorem approve_iff (h : (system cfg).Run P (World.empty K) c) (hs : Seen c.world tie a) :
    (Reopened (ledgerOf c.world a) ActionRow.executedAt (hasResult .pendingApproval)
        (hasResult .dispatched) ↔ ∃ p, Awaiting (ledgerOf c.world a) p)
      ↔ (Overtaken (ledgerOf c.world a) ActionRow.executedAt (hasResult .pendingApproval)
        (hasResult .dispatched) → ∀ p, ¬ Awaiting (ledgerOf c.world a) p) := by
  refine reopened_iff_open (time_ne_of_results hs (by decide)) (fun p hp => ⟨hp.1, hp.2.1⟩) ?_
  intro p hp hpending hlast
  refine ⟨hp, hpending, fun d hd hans => ?_⟩
  have hle := pending_le_answer h (mem_ledgerOf.mp hp).1 (mem_ledgerOf.mp hd).1 hans
  have hdisp : hasResult .dispatched d = true := by
    simp only [answers, Bool.and_eq_true] at hans
    exact hans.1.1
  exact absurd (hlast d hd hdisp) (not_lt.mpr hle)

theorem rollBack_iff (h : (system cfg).Run P (World.empty K) c) (hs : Seen c.world tie a) :
    (Reopened (ledgerOf c.world a) ActionRow.executedAt (hasResult .executed)
        (hasResult .rolledBack) ↔ ∃ r, Reversible (ledgerOf c.world a) r)
      ↔ (Overtaken (ledgerOf c.world a) ActionRow.executedAt (hasResult .executed)
        (hasResult .rolledBack) → ∀ r, ¬ Reversible (ledgerOf c.world a) r) := by
  refine reopened_iff_open (time_ne_of_results hs (by decide)) (fun r hr => ⟨hr.1, hr.2.1⟩) ?_
  intro r hr hexec hlast
  refine ⟨hr, hexec, fun b hb => ?_⟩
  by_contra hrev
  rw [Bool.not_eq_false] at hrev
  have hle := executed_le_reversal h (mem_ledgerOf.mp hr).1 (mem_ledgerOf.mp hb).1 hrev
  have hback : hasResult .rolledBack b = true := by
    simp only [reverses, Bool.and_eq_true] at hrev
    exact hrev.1
  exact absurd (hlast b hb hback) (not_lt.mpr hle)

/--
**The feed offers what the ledger calls for exactly where it hides nothing.**

In every state of every run, for every anomaly all of whose rows were fetched.
-/
theorem feed_iff (h : (system cfg).Run P (World.empty K) c) (hs : Seen c.world tie a) :
    Offered (ledgerOf c.world a) (incidentControls true (fetched c.world tie) a)
      ↔ HidesNothing (ledgerOf c.world a) := by
  have happrove : (incidentControls true (fetched c.world tie) a).approve = true ↔
      Reopened (ledgerOf c.world a) ActionRow.executedAt (hasResult .pendingApproval)
        (hasResult .dispatched) := by
    rw [← reopened_of_positions hs]
    simp [incidentControls, controls]
  have hrollBack : (incidentControls true (fetched c.world tie) a).rollBack = true ↔
      Reopened (ledgerOf c.world a) ActionRow.executedAt (hasResult .executed)
        (hasResult .rolledBack) := by
    rw [← reopened_of_positions hs]
    simp [incidentControls, controls]
  constructor
  · intro ho
    exact ⟨(approve_iff h hs).mp (happrove.symm.trans ho.approve),
      (rollBack_iff h hs).mp (hrollBack.symm.trans ho.rollBack)⟩
  · intro hn
    exact ⟨happrove.trans ((approve_iff h hs).mpr hn.approve),
      hrollBack.trans ((rollBack_iff h hs).mpr hn.rollBack)⟩

end

namespace Scenario

/-- The request of the approval cannot be published, and a millisecond later that is recorded. -/
def undispatched : List (SysAct ℚ) :=
  pending ++ [.env (.tick 1000), .start (.approve sre 1)] ++ calls 11 5 ++
    [.step 11 ⟨.before .amqp, id⟩, .step 11 ⟨.before .amqp, id⟩, .env (.tick 1000)] ++ calls 11 3

/-- What `Seen` asks for, of the only anomaly there is. -/
def seen (c : SysConfig ℚ) : Bool :=
  decide (∀ r ∈ ledgerOf c.world 1, Api.actionOut r ∈ fetched c.world id)
    && decide ((ledgerOf c.world 1).map fun r => dateParse r.executedAt).Nodup

/-- Some pending row waits for an answer. -/
def awaits (c : SysConfig ℚ) : Bool :=
  (ledgerOf c.world 1).any fun p => hasResult .pendingApproval p
    && decide (∀ d ∈ ledgerOf c.world 1, answers p.id d = true → ¬ Stands (ledgerOf c.world 1) d)

theorem of_seen {c : SysConfig ℚ} (h : seen c = true) : Seen c.world id 1 := by
  simp only [seen, Bool.and_eq_true, decide_eq_true_eq] at h
  exact ⟨h.1, h.2⟩

theorem awaits_iff {c : SysConfig ℚ} :
    awaits c = true ↔ ∃ p, Awaiting (ledgerOf c.world 1) p := by
  simp [awaits, Awaiting]

end Scenario

open Scenario in
/-- An approval in progress: its row hides the button of the pending row it answers. -/
theorem feed_iff_approved :
    ∃ c : SysConfig ℚ, (ledgerOf c.world 1).map ActionRow.result = [.pendingApproval, .dispatched]
      ∧ Offered (ledgerOf c.world 1) (incidentControls true (fetched c.world id) 1) := by
  obtain ⟨c, hrun, hcheck⟩ := System.exists_run (S := system settings) (w := World.empty ℚ)
    (p := noForgery)
    (l := pending ++ [.env (.tick 1000), .start (.approve sre 1)] ++ calls 11 6)
    (q := fun c => seen c && !awaits c
      && decide ((ledgerOf c.world 1).map ActionRow.result = [.pendingApproval, .dispatched]))
    (by decide +kernel)
  simp only [Bool.and_eq_true, Bool.not_eq_true', decide_eq_true_eq] at hcheck
  obtain ⟨⟨hseen, hnone⟩, hrows⟩ := hcheck
  refine ⟨c, hrows, (feed_iff hrun (of_seen hseen)).mpr ⟨fun _ p hp => ?_, fun _ r hr => ?_⟩⟩
  · rw [awaits_iff.mpr ⟨p, hp⟩] at hnone
    cases hnone
  -- nothing was executed
  · have hres := List.mem_map_of_mem (f := ActionRow.result) hr.1
    rw [hrows, of_decide_eq_true hr.2.1] at hres
    simp at hres

open Scenario in
/--
**A failed dispatch hides the Approve button of the row that still waits.**

The ledger says pending, dispatched, dispatch failed; the feed takes the second for the answer.
-/
theorem failed_dispatch_hides_approve :
    ∃ c : SysConfig ℚ, (system settings).Run (fun c a => noForgery c a) (World.empty ℚ) c
      ∧ Seen c.world id 1
      ∧ (ledgerOf c.world 1).map ActionRow.result
          = [.pendingApproval, .dispatched, .dispatchFailed]
      ∧ (∃ p, Awaiting (ledgerOf c.world 1) p)
      ∧ (incidentControls true (fetched c.world id) 1).approve = false
      ∧ ¬ Offered (ledgerOf c.world 1) (incidentControls true (fetched c.world id) 1) := by
  obtain ⟨c, hrun, hcheck⟩ := System.exists_run (S := system settings) (w := World.empty ℚ)
    (p := noForgery) (l := undispatched)
    (q := fun c => seen c && awaits c
      && decide ((ledgerOf c.world 1).map ActionRow.result
        = [.pendingApproval, .dispatched, .dispatchFailed])
      && !(incidentControls true (fetched c.world id) 1).approve)
    (by decide +kernel)
  simp only [Bool.and_eq_true, Bool.not_eq_true', decide_eq_true_eq] at hcheck
  obtain ⟨⟨⟨hseen, hawaits⟩, hrows⟩, hhidden⟩ := hcheck
  have hex := awaits_iff.mp hawaits
  refine ⟨c, hrun, of_seen hseen, hrows, hex, hhidden, fun ho => ?_⟩
  rw [ho.approve.mpr hex] at hhidden
  cases hhidden

end HyperTrace.Proof
