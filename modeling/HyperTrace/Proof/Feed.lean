import HyperTrace.Frontend.Feed
import HyperTrace.Proof.Evidence
import HyperTrace.Proof.Incidents

/-!
# What a tab shows is on record

A tab holds copies that were made at different times, of tables that have moved on
since, and of messages that left the detector before the decision engine looked at
them. Still everything it shows is a copy of a row that is on record now. The one thing
about it that may be out of date is the verdict, and that is one that the row was given.

An item is listed once, whichever way it came: the table has its id once, and the
alert looks for it.
-/

namespace HyperTrace.Proof

open HyperTrace Effect Api Frontend

variable {K : Type} [Scalar K]

variable {cfg : Settings} {P : SysConfig K → SysAct K → Prop} {c c' : SysConfig K}

/-! ## Rows are kept -/

/-- Whatever a row was a copy of, this one is too. -/
def CarriedOn (a b : AnomalyRow K) : Prop :=
  ∀ row, SameRow a row → SameRow b row

/-- **A row stays on record, and says the same but for the verdict.** -/
theorem carriedOn_step (h : (system cfg).Run P (World.empty K) c) {x : SysAct K} (hx : P c x)
    (hs : (system cfg).step c x = some c') {a : AnomalyRow K} (ha : a ∈ c.world.anomalies) :
    ∃ b ∈ c'.world.anomalies, b.id = a.id ∧ CarriedOn a b := by
  have hrun := h.tail hx hs
  rcases System.step_cases hs with ⟨y, w', tag, p, _, hst, rfl⟩ |
    ⟨i, y, tag, o, k, _, ht, rfl⟩ | ⟨v, _, rfl⟩
  · exact ⟨a, (start_starts hst).1.anomalies ▸ ha, rfl, fun _ h => h⟩
  · have hmay := record_of_suffix hrun (List.suffix_refl _)
    dsimp only [system] at hmay hrun ⊢
    rcases (exec_changes c.world o y).anomalies with hsame | ⟨row, _, _, happ⟩ |
      ⟨id, cl, ev, rfl, hupd⟩
    · exact ⟨a, hsame ▸ ha, rfl, fun _ h => h⟩
    · exact ⟨a, happ ▸ List.mem_append_left _ ha, rfl, fun _ h => h⟩
    · obtain ⟨ma, reason, rfl, rfl, _, rfl⟩ := hmay
      rw [hupd]
      by_cases hid : a.id = ma.id
      -- the message brings back what the insert has put there
      · obtain ⟨ins, hins, f, id, now, hcall, rfl⟩ :=
          insert_of_message h ((delivered_of_thread h ht).2 ma rfl)
        have hrow' := (onRecord_reachable h).agrees a ha ins hins _ hcall hid.symm
        exact ⟨_, List.mem_map.mpr ⟨a, ha, if_pos hid⟩, rfl, fun row hrow => hrow.replace hrow' ..⟩
      · exact ⟨a, List.mem_map.mpr ⟨a, ha, if_neg hid⟩, rfl, fun _ h => h⟩
  · have hsame : (c.world.env v).anomalies = c.world.anomalies := by cases v <;> rfl
    exact ⟨a, hsame ▸ ha, rfl, fun _ h => h⟩

/-! ## What is shown -/

/-- The item is a copy of a row on record, as that was when it was given a verdict, if not for
the last time. -/
def Shown (c : SysConfig K) (x : Anomaly K) : Prop :=
  ∃ a ∈ c.world.anomalies, ∃ row, SameRow a row ∧ Told c.trace row ∧ x = .ofOut (anomalyOut row)

/-- The item is a row of the ledger. -/
def Logged (c : SysConfig K) (y : ActionOut) : Prop :=
  ∃ r ∈ c.world.actionsLog, y = actionOut r

theorem shown_step (h : (system cfg).Run P (World.empty K) c) {x : SysAct K} (hx : P c x)
    (hs : (system cfg).step c x = some c') {y : Anomaly K} (hy : Shown c y) : Shown c' y := by
  obtain ⟨a, ha, row, hrow, htold, rfl⟩ := hy
  obtain ⟨b, hb, _, hcarried⟩ := carriedOn_step h hx hs ha
  exact ⟨b, hb, row, hcarried row hrow, htold.mono (System.trace_of_step hs).subset, rfl⟩

theorem logged_step {x : SysAct K} (hs : (system cfg).step c x = some c') {y : ActionOut}
    (hy : Logged c y) : Logged c' y := by
  obtain ⟨r, hr, rfl⟩ := hy
  exact ⟨r, ((grows cfg).le_of_step hs).actionsLog.subset hr, rfl⟩

omit [Scalar K] in
theorem mem_published {m : AnomalyMessage K} :
    m ∈ published c ↔ ∃ e ∈ c.trace, e.op = .basicPublish (.anomaly m) := by
  rw [published, List.mem_filterMap]
  refine exists_congr fun e => and_congr_right fun _ => ?_
  constructor
  · intro h
    split at h
    · rename_i heq
      rw [heq, Option.some.inj h]
    · cases h
  · intro h
    rw [h]

/-- **An alert is a copy of the row its detector had inserted.** -/
theorem shown_of_published (h : (system cfg).Run P (World.empty K) c) {ma : AnomalyMessage K}
    (hm : ma ∈ published c) : Shown c (.ofAlert ma) := by
  obtain ⟨e, he, hop⟩ := mem_published.mp hm
  obtain ⟨ins, hins, f, id, now, hcall, rfl⟩ := insert_of_published h he hop
  obtain ⟨a, ha, hid⟩ := recorded_of_answered h hins hcall
  have hagrees := (onRecord_reachable h).agrees a ha ins hins _ hcall hid.symm
  refine ⟨a, ha, f.row id now, hagrees, ⟨ins, hins, inserted_of_answered h hins hcall, ?_⟩, rfl⟩
  -- the detector leaves the verdict out
  have hiop : ins.op = .insertAnomaly (f.row id now) := congrArg Call.op hcall
  obtain ⟨hclass, hreason⟩ := unjudged_of_insert h hins hiop
  rw [hiop]
  exact .insert hclass hreason

/-! ## Lists of the feed -/

/-- A list of anomalies as the tab holds it. -/
structure Lists (c : SysConfig K) (l : List (Anomaly K)) : Prop where
  shown : ∀ x ∈ l, Shown c x
  nodup : (l.map Anomaly.id).Nodup
  length : l.length ≤ actionableWindow

/-- What the API answers, read from the table as it is. -/
theorem lists_listAnomalies (h : (system cfg).Run P (World.empty K) c) {limit : Nat}
    (hlimit : limit ≤ actionableWindow) (service : Option String) (tie : Nat → Nat) :
    Lists c ((listAnomalies limit service tie c.world.anomalies).map .ofOut) := by
  have hrec := onRecord_reachable h
  refine ⟨fun x hx => ?_, ?_, ?_⟩
  · obtain ⟨out, hout, rfl⟩ := List.mem_map.mp hx
    obtain ⟨a, ha, rfl⟩ := List.mem_map.mp hout
    have ha := (List.mem_filter.mp (mem_orderBy.mp (List.mem_of_mem_take ha))).1
    exact ⟨a, ha, a, .refl a, hrec.told a ha, rfl⟩
  · have hids : Anomaly.id ∘ Anomaly.ofOut ∘ anomalyOut = (AnomalyRow.id : AnomalyRow K → Uuid) :=
      rfl
    rw [listAnomalies, List.map_map, List.map_map, Function.comp_assoc, hids]
    refine ((List.take_sublist _ _).map _).nodup ?_
    rw [((orderBy_perm _ tie _).map _).nodup_iff]
    exact (List.filter_sublist.map _).nodup (anomaly_ids_nodup h)
  · rw [listAnomalies, List.length_map, List.length_map, List.length_take]
    exact (min_le_left _ _).trans hlimit

omit [Scalar K] in
/-- An alert is put in front of what is there, if it is not there already. -/
theorem lists_prepend {l : List (Anomaly K)} (hl : Lists c l) {x : Anomaly K} (hx : Shown c x) :
    Lists c (Incidents.prepend x l) := by
  unfold Incidents.prepend
  split
  · exact hl
  · rename_i hnew
    refine ⟨fun y hy => ?_, ((List.take_sublist _ _).map _).nodup ?_, List.length_take_le _ _⟩
    · rcases List.mem_cons.mp (List.mem_of_mem_take hy) with rfl | hy
      · exact hx
      · exact hl.shown y hy
    · rw [List.map_cons, List.nodup_cons]
      refine ⟨fun hid => hnew ?_, hl.nodup⟩
      obtain ⟨y, hy, hyid⟩ := List.mem_map.mp hid
      exact List.any_eq_true.mpr ⟨y, hy, decide_eq_true hyid⟩

omit [Scalar K] in
theorem visible_sublist {s : Incidents K} : s.visible.Sublist s.anomalies := by
  unfold Incidents.visible
  split
  · exact List.filter_sublist
  · exact List.Sublist.refl _

/-! ## The tab -/

/-- What a refresh has been answered so far. -/
structure Answered (c : SysConfig K) (r : Refresh K) : Prop where
  limit : r.limit ≤ actionableWindow
  anomalies : ∀ l, r.anomalies = some l → Lists c l
  actions : ∀ l, r.actions = some l → ∀ y ∈ l, Logged c y

structure Sound (c : SysConfig K) (s : Incidents K) : Prop where
  anomalies : Lists c s.anomalies
  actions : ∀ y ∈ s.actions, Logged c y
  refreshes : ∀ r ∈ s.refreshes, Answered c r

omit [Scalar K] in
/-- What the system does makes no copy wrong. -/
theorem sound_other {s : Incidents K} (hshown : ∀ x, Shown c x → Shown c' x)
    (hlogged : ∀ y, Logged c y → Logged c' y) (h : Sound c s) : Sound c' s := by
  have hlists : ∀ l, Lists c l → Lists c' l := fun l hl =>
    ⟨fun x hx => hshown x (hl.shown x hx), hl.nodup, hl.length⟩
  exact ⟨hlists _ h.anomalies, fun y hy => hlogged y (h.actions y hy), fun r hr =>
    ⟨(h.refreshes r hr).limit, fun l hl => hlists l ((h.refreshes r hr).anomalies l hl),
      fun l hl y hy => hlogged y ((h.refreshes r hr).actions l hl y hy)⟩⟩

omit [Scalar K] in
theorem sound_refresh {s : Incidents K} (onlyActionable : Bool) (h : Sound c s) :
    Sound c (s.refresh onlyActionable) := by
  refine ⟨h.anomalies, h.actions, fun r hr => ?_⟩
  rcases List.mem_append.mp hr with hr | hr
  · exact h.refreshes r hr
  · obtain rfl := List.mem_singleton.mp hr
    refine ⟨?_, fun l hl => (nomatch hl), fun l hl => (nomatch hl)⟩
    dsimp only
    split <;> decide

omit [Scalar K] in
theorem sound_init : Sound c (Incidents.init K) :=
  sound_refresh false ⟨⟨by simp, List.nodup_nil, by simp⟩, by simp, by simp⟩

omit [Scalar K] in
/-- One refresh has got further. -/
theorem refreshes_set {l : List (Refresh K)} {n : Nat} {r : Refresh K} (hr : Answered c r)
    (h : ∀ r ∈ l, Answered c r) : ∀ r' ∈ l.set n r, Answered c r' := by
  intro r' hr'
  rcases List.mem_or_eq_of_mem_set hr' with hr' | rfl
  · exact h r' hr'
  · exact hr

/-- **No act of the tab puts anything up that is not on record.** -/
theorem sound_feed (hrun : (system cfg).Run P (World.empty K) c) {s s' : Incidents K} {a : FeedAct}
    (hs : s.step c a = some s') (h : Sound c s) : Sound c s' := by
  have herase : ∀ n, ∀ r ∈ s.refreshes.eraseIdx n, Answered c r := fun n r hr =>
    h.refreshes r (List.mem_of_mem_eraseIdx hr)
  cases a with
  | interval =>
      obtain rfl := Option.some.inj hs
      exact sound_refresh _ h
  | setActionableOnly value =>
      simp only [Incidents.step] at hs
      split at hs
      · obtain rfl := Option.some.inj hs
        exact h
      · obtain rfl := Option.some.inj hs
        exact sound_refresh value ⟨h.anomalies, h.actions, h.refreshes⟩
  | anomalies n tie =>
      simp only [Incidents.step] at hs
      split at hs
      · rename_i limit actions hget
        obtain rfl := Option.some.inj hs
        have hr := h.refreshes _ (List.mem_of_getElem? hget)
        have hans := lists_listAnomalies hrun hr.limit none tie
        refine ⟨h.anomalies, h.actions, refreshes_set ⟨hr.limit, fun l hl => ?_, hr.actions⟩
          h.refreshes⟩
        exact Option.some.inj hl ▸ hans
      · cases hs
  | actions n tie =>
      simp only [Incidents.step] at hs
      split at hs
      · rename_i limit anomalies hget
        obtain rfl := Option.some.inj hs
        have hr := h.refreshes _ (List.mem_of_getElem? hget)
        refine ⟨h.anomalies, h.actions, refreshes_set ⟨hr.limit, hr.anomalies, fun l hl y hy => ?_⟩
          h.refreshes⟩
        obtain rfl := Option.some.inj hl
        obtain ⟨r, hr, rfl⟩ := List.mem_map.mp hy
        exact ⟨r, mem_orderBy.mp (List.mem_of_mem_take hr), rfl⟩
      · cases hs
  | resolve n =>
      simp only [Incidents.step] at hs
      split at hs
      · rename_i limit anomalies actions hget
        obtain rfl := Option.some.inj hs
        have hr := h.refreshes _ (List.mem_of_getElem? hget)
        exact ⟨hr.anomalies _ rfl, hr.actions _ rfl, herase n⟩
      · cases hs
  | reject n =>
      simp only [Incidents.step] at hs
      split at hs
      · obtain rfl := Option.some.inj hs
        exact ⟨h.anomalies, h.actions, herase n⟩
      · cases hs
  | alert n =>
      obtain ⟨ma, hma, rfl⟩ := Option.map_eq_some_iff.mp hs
      have hx := shown_of_published hrun (List.mem_of_getElem? hma)
      exact ⟨lists_prepend h.anomalies hx, h.actions, h.refreshes⟩
  | act =>
      obtain rfl := Option.some.inj hs
      exact ⟨h.anomalies, h.actions, h.refreshes⟩
  | acted n ok =>
      simp only [Incidents.step] at hs
      split at hs
      · obtain rfl := Option.some.inj hs
        have hsame : Sound c { s with acts := s.acts.eraseIdx n } :=
          ⟨h.anomalies, h.actions, h.refreshes⟩
        split
        · exact sound_refresh _ hsame
        · exact hsame
      · cases hs

/-! ## Whole runs of the tab -/

variable {acts : List (TabAct K)} {s : Tab K}

theorem run_of_browse (h : (browse cfg).Run (fun _ _ => True) (Tab.init cfg) acts s) :
    (system cfg).Run (fun _ _ => True) (World.empty K) s.system := by
  refine h.keeps (I := fun _ s => (system cfg).Run (fun _ _ => True) (World.empty K) s.system)
    .init ?_
  intro as s₁ s₂ a _ _ hs ih
  cases a with
  | feed a =>
      obtain ⟨i, _, rfl⟩ := Option.map_eq_some_iff.mp hs
      exact ih
  | other a =>
      obtain ⟨c, hc, rfl⟩ := Option.map_eq_some_iff.mp hs
      exact ih.tail trivial hc

theorem sound_reachable (h : (browse cfg).Run (fun _ _ => True) (Tab.init cfg) acts s) :
    Sound s.system s.incidents := by
  refine h.keeps (I := fun _ s => Sound s.system s.incidents) sound_init ?_
  intro as s₁ s₂ a hr _ hs ih
  have hrun := run_of_browse hr
  cases a with
  | feed a =>
      obtain ⟨i, hi, rfl⟩ := Option.map_eq_some_iff.mp hs
      exact sound_feed hrun hi ih
  | other a =>
      obtain ⟨c, hc, rfl⟩ := Option.map_eq_some_iff.mp hs
      exact sound_other (fun x hx => shown_step hrun trivial hc hx) (fun y hy => logged_step hc hy)
        ih

namespace Scenario

/-- The alert of the anomaly that waits, and then the view that is there to find it. -/
def browsed : List (TabAct ℚ) :=
  pending.map .other ++
    ([.alert 0, .anomalies 0 id, .actions 0 id, .setActionableOnly true, .resolve 0, .alert 0] :
      List FeedAct).map .feed

theorem browsed_run :
    ∃ s, (browse settings).Run (fun _ _ => True) (Tab.init settings) browsed s
      ∧ (∃ x, s.incidents.visible = [x] ∧ x.classification = some .misconfigurationOrWaste)
      ∧ s.incidents.actionableOnly = true
      ∧ ∀ x ∈ s.incidents.visible,
        (incidentControls true s.incidents.actions x.id).approve = true := by
  have hexec : ((browse settings).exec (fun _ _ => true) (Tab.init settings) browsed).any
      (fun s => decide (s.incidents.visible.length = 1)
        && (s.incidents.visible.all fun x => x.classification = some .misconfigurationOrWaste)
        && s.incidents.actionableOnly && s.incidents.visible.all fun x =>
          (incidentControls true s.incidents.actions x.id).approve) = true := by
    decide +kernel
  obtain ⟨s, hrun, hcheck⟩ := Machine.exists_run hexec
  simp only [Bool.and_eq_true, decide_eq_true_eq, List.all_eq_true] at hcheck
  obtain ⟨⟨⟨hone, hclass⟩, honly⟩, happrove⟩ := hcheck
  obtain ⟨x, hx⟩ := List.length_eq_one_iff.mp hone
  exact ⟨s, hrun.mono fun _ _ _ => trivial,
    ⟨x, hx, hclass x (hx ▸ List.mem_singleton_self x)⟩, honly, happrove⟩

end Scenario

/-! ## The controls -/

omit [Scalar K] in
theorem exists_of_latest {α : Type} {l : List α} {p : α → Bool} (h : 0 ≤ latest l p) :
    ∃ x ∈ l, p x = true := by
  induction l using List.reverseRecOn with
  | nil => simp [latest] at h
  | append_singleton l x ih =>
      rw [latest_append] at h
      split at h
      · rename_i hx
        exact ⟨x, by simp, hx⟩
      · obtain ⟨y, hy, hp⟩ := ih h
        exact ⟨y, List.mem_append_left _ hy, hp⟩

omit [Scalar K] in
/-- A result that the feed finds among its actions is in the ledger, for this anomaly. -/
theorem ledger_of_latest {actions : List ActionOut} (hlog : ∀ y ∈ actions, Logged c y)
    {anomalyId : Uuid} {res : ActionResult}
    (h : 0 ≤ latest (related actions anomalyId) fun r => r.result = res) :
    ∃ r ∈ ledgerOf c.world anomalyId, r.result = res := by
  obtain ⟨y, hy, hres⟩ := exists_of_latest h
  rw [related, List.mem_insertionSort, List.mem_filter, decide_eq_true_eq] at hy
  obtain ⟨r, hr, rfl⟩ := hlog y hy.1
  exact ⟨r, mem_ledgerOf.mpr ⟨hr, hy.2⟩, of_decide_eq_true hres⟩

/-- The buttons of an item are there for somebody who may act, and for rows of the ledger. -/
structure Supported (c : SysConfig K) (canAct : Bool) (anomalyId : Uuid) (b : Controls) : Prop where
  approve : b.approve = true → canAct = true
    ∧ ∃ r ∈ ledgerOf c.world anomalyId, r.result = .pendingApproval
  rollBack : b.rollBack = true → canAct = true
    ∧ ∃ r ∈ ledgerOf c.world anomalyId, r.result = .executed

omit [Scalar K] in
theorem supported_of_logged {actions : List ActionOut} (hlog : ∀ y ∈ actions, Logged c y)
    (canAct : Bool) (anomalyId : Uuid) :
    Supported c canAct anomalyId (incidentControls canAct actions anomalyId) := by
  constructor
  · intro h
    simp only [incidentControls, controls, Bool.and_eq_true, decide_eq_true_eq] at h
    exact ⟨h.1, ledger_of_latest hlog h.2.1⟩
  · intro h
    simp only [incidentControls, controls, Bool.and_eq_true, decide_eq_true_eq] at h
    exact ⟨h.1, ledger_of_latest hlog h.2.1⟩

/--
**A tab shows nothing that is not on record.**

However refreshes overlap, fail and come late, whatever alerts come between them and
whatever the system does meanwhile: every item is shown once, it is a copy of a row
of the table but for a verdict that has been given since, under the filter it has a
row in the ledger, and its buttons are for rows that the ledger has.
-/
theorem feed_on_record (h : (browse cfg).Run (fun _ _ => True) (Tab.init cfg) acts s) :
    (s.incidents.visible.map Anomaly.id).Nodup ∧ s.incidents.visible.length ≤ actionableWindow
      ∧ ∀ x ∈ s.incidents.visible, Shown s.system x
        ∧ (s.incidents.actionableOnly = true → ledgerOf s.system.world x.id ≠ [])
        ∧ ∀ canAct, Supported s.system canAct x.id
            (incidentControls canAct s.incidents.actions x.id) := by
  have hsound := sound_reachable h
  refine ⟨(visible_sublist.map _).nodup hsound.anomalies.nodup,
    visible_sublist.length_le.trans hsound.anomalies.length, fun x hx => ?_⟩
  refine ⟨hsound.anomalies.shown x (visible_sublist.subset hx), fun honly => ?_, fun canAct =>
    supported_of_logged hsound.actions canAct x.id⟩
  -- the filter has found an action of it
  rw [Incidents.visible, if_pos honly, List.mem_filter] at hx
  obtain ⟨y, hy, hid⟩ := List.any_eq_true.mp hx.2
  obtain ⟨r, hr, rfl⟩ := hsound.actions y hy
  exact List.ne_nil_of_mem (mem_ledgerOf.mpr ⟨hr, of_decide_eq_true hid⟩)

open Scenario in
/-- It is shown once, with its verdict, under the filter and with a button to approve it. -/
theorem feed_on_record_browsed :
    ∃ (s : Tab ℚ) (x : Anomaly ℚ), s.incidents.visible = [x] ∧ s.incidents.actionableOnly = true
      ∧ x.classification = some .misconfigurationOrWaste
      ∧ (incidentControls true s.incidents.actions x.id).approve = true
      ∧ Shown s.system x
      ∧ ∃ r ∈ ledgerOf s.system.world x.id, r.result = .pendingApproval := by
  obtain ⟨s, hrun, ⟨x, hx, hclass⟩, honly, happrove⟩ := browsed_run
  have hmem : x ∈ s.incidents.visible := hx ▸ List.mem_singleton_self x
  obtain ⟨_, _, hall⟩ := feed_on_record hrun
  obtain ⟨hshown, _, hsupported⟩ := hall x hmem
  exact ⟨s, x, hx, honly, hclass, happrove x hmem, hshown,
    ((hsupported true).approve (happrove x hmem)).2⟩

end HyperTrace.Proof
