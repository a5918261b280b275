import HyperTrace.Proof.Containment
import HyperTrace.Proof.Redelivery
import HyperTrace.Proof.Reversal

/-!
# Freezes and rollbacks of one autoscaler

A freeze refers back to the maximum it found, and a rollback sets whatever the row
it is sent for refers to. When freezes nest, because the replica count moved in
between, the maximum an inner one found is not the original one any more. Which
maximum is left at the end depends on the rollback that came last, and on nothing
else.
-/

namespace HyperTrace.Proof

open HyperTrace Effect Executor

variable {K : Type}

/-- The maximum of one autoscaler. -/
def maxOf (ns name : String) (cl : Cluster) : Option Nat := (cl.hpa ns name).map Hpa.maxReplicas

/-- The replicas its workload has. -/
def replicasOf (ns name : String) (cl : Cluster) : Option Nat :=
  (cl.hpa ns name).bind Hpa.currentReplicas

/-- The patch is one of the autoscaler. -/
def patchesHpa (ns name : String) : Op K → Bool
  | .patchHpa name' ns' _ => name' = name && ns' = ns
  | _ => false

theorem patchesHpa_iff {ns name : String} {o : Op K} :
    patchesHpa ns name o = true ↔ ∃ max, o = .patchHpa name ns max := by
  constructor
  · intro h
    unfold patchesHpa at h
    split at h
    · rw [Bool.and_eq_true, decide_eq_true_eq, decide_eq_true_eq] at h
      obtain ⟨rfl, rfl⟩ := h
      exact ⟨_, rfl⟩
    · cases h
  · intro hx
    obtain ⟨max, rfl⟩ := hx
    simp [patchesHpa]

/-- The row of an executed freeze that found the maximum `max`. -/
def IsFreeze (ns name : String) (row : ActionRow K) (max : Nat) : Prop :=
  row.result = .executed ∧ row.priorState = some (freezeRef ns name max)

/-- No row refers to the autoscaler yet. -/
def Unfrozen (ns name : String) (w : World K) : Prop :=
  ∀ row ∈ w.actionsLog, ∀ prior, row.priorState = some prior →
    ∀ max, reversal prior ≠ .ok (some (.patchHpa name ns max))

/--
What may happen between two handlings. The workload scales, time passes and other
rows are written, but nobody else sets this maximum or writes what can be rolled back.
-/
structure Meanwhile (ns name : String) (v w : World K) : Prop where
  max : maxOf ns name w.cluster = maxOf ns name v.cluster
  ledger : ∃ rows, w.actionsLog = v.actionsLog ++ rows ∧ ∀ row ∈ rows, row.priorState = none

section

variable [Scalar K] (cfg : Executor.Config) (ns name : String)

/-- A patch of the autoscaler took effect. -/
def Scales (x : Handling K) : Prop :=
  ∃ e ∈ x.record cfg, TookEffect e ∧ ∃ max, e.op = .patchHpa name ns max

/-- The autoscaler was frozen. -/
def Freezes (x : Handling K) : Prop :=
  Scales cfg ns name x ∧ x.message.action ≠ some "rollback"

/-- The autoscaler was set back to what the row of the given id refers to. -/
def RollsBack (x : Handling K) (r : Uuid) : Prop :=
  Scales cfg ns name x ∧ x.message.action = some "rollback" ∧ x.message.targetActionId = some r

/-- The handling wrote the row. -/
def Records (x : Handling K) (row : ActionRow K) : Prop :=
  row ∈ (x.after cfg).actionsLog ∧ row ∉ x.before.actionsLog

/-- The handlings so far, newest first, and the world they have led to. -/
inductive Life (w₀ : World K) : List (Handling K) → World K → Prop where
  | start : Life w₀ [] w₀
  | handle {l : List (Handling K)} (x : Handling K) : Life w₀ l x.before →
      Life w₀ (x :: l) (x.after cfg)
  | meanwhile {l : List (Handling K)} {v w : World K} : Life w₀ l v → Meanwhile ns name v w →
      Life w₀ l w

/-- The newest handling that set the maximum, and those before it. -/
inductive Newest : List (Handling K) → Handling K → List (Handling K) → Prop where
  | here {x : Handling K} {l : List (Handling K)} : Scales cfg ns name x → Newest (x :: l) x l
  | before {x y : Handling K} {l l' : List (Handling K)} : ¬ Scales cfg ns name y →
      Newest l x l' → Newest (y :: l) x l'

end

/-! ## One handling -/

/-- A reference to the autoscaler is one to the maximum that was found. -/
theorem finds_of_reversal {req : Request} {cl : Cluster} {o : Op K} {ref : Json K}
    (h : Finds req cl o ref) {ns name : String} {v : Json K}
    (hrev : reversal ref = .ok (some (.patchHpa name ns v))) :
    ∃ max n : ℕ, ref = freezeRef ns name max ∧ v = .int max ∧ o = .patchHpa name ns (.int n)
      ∧ maxOf ns name cl = some max := by
  cases h with
  | throttle =>
      rw [reversal_throttleRef] at hrev
      cases hrev
  | @freeze ns' workload hpa n _ _ hhpa =>
      rw [reversal_freezeRef] at hrev
      cases hrev
      refine ⟨hpa.maxReplicas, n, rfl, rfl, rfl, ?_⟩
      rw [maxOf, Cluster.hpa_of_hpaOf hhpa, Option.map_some]

/-- A freeze of the autoscaler is to the replicas there are. -/
theorem replicasOf_of_finds {req : Request} {cl : Cluster} {ns name : String} {v ref : Json K}
    (h : Finds req cl (.patchHpa name ns v) ref) :
    ∃ n : ℕ, v = .int n ∧ replicasOf ns name cl = some n := by
  cases h with
  | @freeze _ _ hpa n _ _ hhpa hcur =>
      refine ⟨n, rfl, ?_⟩
      rw [replicasOf, Cluster.hpa_of_hpaOf hhpa, Option.bind_some, hcur]

/-- A patch of something else keeps the maximum. -/
theorem maxOf_of_sent {ns name : String} {o : Op K} {cl cl' : Cluster}
    (h : sent o cl = (.ok (), cl')) (ho : ∀ max, o ≠ .patchHpa name ns max) :
    maxOf ns name cl' = maxOf ns name cl := by
  cases o with
  | patchDeployment name' ns' container cpu =>
      obtain ⟨_, _, _, _, _, _, rfl⟩ := Cluster.patchDeployment_ok h
      rfl
  | patchHpa name' ns' max =>
      obtain ⟨_, _, _, _, _, _, rfl⟩ := Cluster.patchHpa_ok h
      rw [maxOf, Cluster.hpa_setHpa_ne, maxOf]
      intro hx
      obtain ⟨rfl, rfl⟩ := hx
      exact ho max rfl
  | _ => cases h; rfl

/-- A patch of the autoscaler sets what it says. -/
theorem maxOf_of_sent_self {ns name : String} {n : ℕ} {cl cl' : Cluster}
    (h : sent (K := K) (.patchHpa name ns (.int n)) cl = (.ok (), cl')) :
    maxOf ns name cl' = some n := by
  obtain ⟨_, _, _, hmax, _, hh⟩ := Cluster.hpa_of_patchHpa (K := K) h
  obtain ⟨_, rfl⟩ := Hpa.withMaxReplicas_set hmax
  rw [maxOf, hh, Option.map_some]

variable [Scalar K] {cfg : Executor.Config} {ns name : String}
variable {w₀ w : World K} {l : List (Handling K)} {x : Handling K}

theorem maxOf_kept (h : ¬ Scales cfg ns name x) :
    maxOf ns name (x.after cfg).cluster = maxOf ns name x.before.cluster := by
  by_cases heff : ∃ e ∈ x.record cfg, TookEffect e
  · obtain ⟨e, he, heff⟩ := heff
    refine maxOf_of_sent (Handling.sent_of_tookEffect he heff) ?_
    intro max hop
    exact h ⟨e, he, heff, max, hop⟩
  · rw [Handling.cluster_kept fun e he heff' => heff ⟨e, he, heff'⟩]

theorem ledger_kept (x : Handling K) : x.before.actionsLog <+: (x.after cfg).actionsLog := by
  obtain ⟨rows, hrows, _⟩ := x.appended cfg
  rw [hrows]
  exact List.prefix_append ..

/-- A row that was written has an id that was not there. -/
theorem Records.fresh {row : ActionRow K} (h : Records cfg x row) :
    ∀ r ∈ x.before.actionsLog, r.id ≠ row.id := by
  obtain ⟨rows, hrows, hall⟩ := x.appended cfg
  have hmem := h.1
  rw [hrows] at hmem
  exact (hall row ((List.mem_append.mp hmem).resolve_left h.2)).1

/-! ## The life of an autoscaler -/

/-- The newest handling left the maximum as it is. -/
theorem Life.newest (h : Life cfg ns name w₀ (x :: l) w) :
    Life cfg ns name w₀ l x.before
      ∧ maxOf ns name w.cluster = maxOf ns name (x.after cfg).cluster := by
  generalize hl : x :: l = l' at h
  induction h with
  | start => cases hl
  | handle y hy _ =>
      obtain ⟨rfl, rfl⟩ := List.cons.inj hl
      exact ⟨hy, rfl⟩
  | meanwhile _ hmean ih =>
      obtain ⟨hlife, hmax⟩ := ih hl
      exact ⟨hlife, hmean.max.trans hmax⟩

/-- What a handling left in the ledger stays there. -/
theorem Life.ledger_grows (h : Life cfg ns name w₀ l w) :
    ∀ y ∈ l, (y.after cfg).actionsLog <+: w.actionsLog := by
  induction h with
  | start => simp
  | handle x _ ih =>
      intro y hy
      rcases List.mem_cons.mp hy with rfl | hy
      · exact List.prefix_rfl
      · exact (ih y hy).trans (ledger_kept x)
  | meanwhile _ hmean ih =>
      intro y hy
      obtain ⟨rows, hrows, _⟩ := hmean.ledger
      rw [hrows]
      exact (ih y hy).trans (List.prefix_append ..)

/--
**What a reference to the autoscaler is worth.** It is in the row of an executed
freeze, and names the maximum that freeze found.
-/
theorem Life.reference (h : Life cfg ns name w₀ l w) (hw : Unfrozen ns name w₀) :
    ∀ row ∈ w.actionsLog, ∀ prior v, row.priorState = some prior →
      reversal prior = .ok (some (.patchHpa name ns v)) →
      ∃ max : ℕ, v = .int max ∧ IsFreeze ns name row max
        ∧ ∃ f ∈ l, Records cfg f row ∧ maxOf ns name f.before.cluster = some max := by
  induction h with
  | start =>
      intro row hrow prior v hprior hrev
      exact absurd hrev (hw row hrow prior hprior v)
  | handle x _ ih =>
      intro row hrow prior v hprior hrev
      -- a row of this handling refers to what it found
      by_cases hold : row ∈ x.before.actionsLog
      · obtain ⟨max, hv, hfreeze, f, hf, hrest⟩ := ih row hold prior v hprior hrev
        exact ⟨max, hv, hfreeze, f, List.mem_cons_of_mem _ hf, hrest⟩
      · obtain ⟨rows, hrows, hall⟩ := x.appended cfg
        have hnew : row ∈ rows := by
          rw [hrows] at hrow
          exact (List.mem_append.mp hrow).resolve_left hold
        rcases (hall row hnew).2 with ⟨_, hnone⟩ | ⟨e, _, _, req, ref, _, hfinds, hres, href⟩
        · rw [hprior] at hnone
          cases hnone
        · obtain rfl : ref = prior := Option.some.inj (href.symm.trans hprior)
          obtain ⟨max, n, rfl, hv, _, hmax⟩ := finds_of_reversal hfinds hrev
          exact ⟨max, hv, ⟨hres, hprior⟩, x, List.mem_cons_self .., ⟨hrow, hold⟩, hmax⟩
  | meanwhile _ hmean ih =>
      intro row hrow prior v hprior hrev
      obtain ⟨rows, hrows, hall⟩ := hmean.ledger
      rw [hrows] at hrow
      rcases List.mem_append.mp hrow with hrow | hrow
      · exact ih row hrow prior v hprior hrev
      · rw [hall row hrow] at hprior
        cases hprior

/-- **What a rollback leaves.** The maximum that the freeze it is sent for had found. -/
theorem Life.rolledBack (h : Life cfg ns name w₀ l x.before) (hw : Unfrozen ns name w₀) {r : Uuid}
    (hx : RollsBack cfg ns name x r) :
    ∃ row ∈ x.before.actionsLog, row.id = r ∧ ∃ f ∈ l, Records cfg f row
      ∧ maxOf ns name (x.after cfg).cluster = maxOf ns name f.before.cluster := by
  obtain ⟨⟨e, he, heff, v, hop⟩, hact, htarget⟩ := hx
  obtain ⟨pre, hsuf⟩ := exists_suffix_of_mem he
  have hsent := Handling.sent_of_tookEffect he heff
  obtain ⟨req, hp, hcase⟩ := Handling.patch_found hsuf heff.1
  obtain ⟨_, _, haction, _, _, htarget'⟩ := parseRequest_ok hp
  rw [hop] at hsent hcase
  rcases hcase with ⟨ref, hfinds⟩ | ⟨row, hrecalls⟩
  · exact absurd (Option.some.inj (haction.symm.trans hact)) hfinds.action_ne
  · obtain @⟨t, _, prior, _, _, ht, hrow, hprior, hrev⟩ := hrecalls
    obtain rfl : t = r := Option.some.inj (ht.symm.trans (htarget'.trans htarget))
    have hmem : row ∈ x.before.actionsLog := List.mem_of_find?_eq_some hrow
    have hid : row.id = t := by simpa using List.find?_some hrow
    obtain ⟨max, rfl, _, f, hf, hrec, hmax⟩ :=
      h.reference hw row hmem prior v (priorState_some hprior) hrev
    exact ⟨row, hmem, hid, f, hf, hrec, (maxOf_of_sent_self hsent).trans hmax.symm⟩

/-- An id is written by one handling only. -/
theorem Life.writer_unique (h : Life cfg ns name w₀ l w) {f f' : Handling K} (hf : f ∈ l)
    (hf' : f' ∈ l) {row row' : ActionRow K} (hrow : Records cfg f row)
    (hrow' : Records cfg f' row') (hid : row.id = row'.id) : f = f' := by
  induction h with
  | start => cases hf
  | @handle l x hx ih =>
      rcases List.mem_cons.mp hf with hfx | hfl
      · rcases List.mem_cons.mp hf' with hfx' | hfl'
        · rw [hfx, hfx']
        · rw [hfx] at hrow
          exact absurd hid.symm (hrow.fresh row' ((hx.ledger_grows f' hfl').subset hrow'.1))
      · rcases List.mem_cons.mp hf' with hfx' | hfl'
        · rw [hfx'] at hrow'
          exact absurd hid (hrow'.fresh row ((hx.ledger_grows f hfl).subset hrow.1))
        · exact ih hfl hfl'
  | meanwhile _ _ ih => exact ih hf hf'

/-- What a freeze leaves. -/
theorem maxOf_of_freezes (hx : Freezes cfg ns name x) :
    maxOf ns name (x.after cfg).cluster = replicasOf ns name x.before.cluster := by
  obtain ⟨⟨e, he, heff, v, hop⟩, hact⟩ := hx
  obtain ⟨pre, hsuf⟩ := exists_suffix_of_mem he
  have hsent := Handling.sent_of_tookEffect he heff
  obtain ⟨req, hp, hcase⟩ := Handling.patch_found hsuf heff.1
  obtain ⟨_, _, haction, _⟩ := parseRequest_ok hp
  rw [hop] at hsent hcase
  rcases hcase with ⟨ref, hfinds⟩ | ⟨row, hrecalls⟩
  · obtain ⟨n, rfl, hn⟩ := replicasOf_of_finds hfinds
    rw [maxOf_of_sent_self hsent, hn]
  · obtain ⟨hroll, _⟩ := hrecalls
    exact absurd (haction.trans (congrArg some hroll)) hact

/-- A rollback that set the maximum was sent for some row. -/
theorem rollsBack_of_scales (h : Scales cfg ns name x)
    (hact : x.message.action = some "rollback") : ∃ r, RollsBack cfg ns name x r := by
  have ⟨e, he, heff, _⟩ := h
  obtain ⟨pre, hsuf⟩ := exists_suffix_of_mem he
  obtain ⟨req, hp, hcase⟩ := Handling.patch_found hsuf heff.1
  obtain ⟨_, _, haction, _, _, htarget⟩ := parseRequest_ok hp
  rcases hcase with ⟨ref, hfinds⟩ | ⟨row, hrecalls⟩
  · exact absurd (Option.some.inj (haction.symm.trans hact)) hfinds.action_ne
  · obtain @⟨t, _, _, _, _, ht, _⟩ := hrecalls
    exact ⟨t, h, hact, htarget.symm.trans ht⟩

/-- As long as nothing has set it, the maximum is the original one. -/
theorem Life.untouched (h : Life cfg ns name w₀ l w) (hl : ∀ x ∈ l, ¬ Scales cfg ns name x) :
    maxOf ns name w.cluster = maxOf ns name w₀.cluster := by
  induction h with
  | start => rfl
  | handle x _ ih =>
      rw [maxOf_kept (hl x (List.mem_cons_self ..))]
      exact ih fun y hy => hl y (List.mem_cons_of_mem _ hy)
  | meanwhile _ hmean ih => exact hmean.max.trans (ih hl)

/-! ## The newest one decides -/

theorem newest_or_none (l : List (Handling K)) :
    (∃ x l', Newest cfg ns name l x l') ∨ ∀ x ∈ l, ¬ Scales cfg ns name x := by
  induction l with
  | nil => exact Or.inr (by simp)
  | cons y l ih =>
      by_cases hy : Scales cfg ns name y
      · exact Or.inl ⟨y, l, .here hy⟩
      · rcases ih with ⟨x, l', hx⟩ | hnone
        · exact Or.inl ⟨x, l', .before hy hx⟩
        · refine Or.inr fun x hx => ?_
          rcases List.mem_cons.mp hx with rfl | hx
          · exact hy
          · exact hnone x hx

theorem Newest.unique {y : Handling K} {l' l'' : List (Handling K)} (h : Newest cfg ns name l x l')
    (h' : Newest cfg ns name l y l'') : y = x ∧ l'' = l' := by
  induction h with
  | here hx =>
      cases h' with
      | here => exact ⟨rfl, rfl⟩
      | before hnot => exact absurd hx hnot
  | before hnot _ ih =>
      cases h' with
      | here hy => exact absurd hy hnot
      | before _ hrest => exact ih hrest

theorem Newest.scales {l' : List (Handling K)} (h : Newest cfg ns name l x l') :
    Scales cfg ns name x := by
  induction h with
  | here hx => exact hx
  | before _ _ ih => exact ih

theorem Newest.self_mem {l' : List (Handling K)} (h : Newest cfg ns name l x l') : x ∈ l := by
  induction h with
  | here => exact List.mem_cons_self ..
  | before _ _ ih => exact List.mem_cons_of_mem _ ih

/-- The maximum is as the newest one left it. -/
theorem Life.atNewest {l' : List (Handling K)} (h : Life cfg ns name w₀ l w)
    (hx : Newest cfg ns name l x l') : Life cfg ns name w₀ l' x.before
      ∧ maxOf ns name w.cluster = maxOf ns name (x.after cfg).cluster := by
  induction hx generalizing w with
  | here => exact h.newest
  | before hnot _ ih =>
      obtain ⟨hlife, hmax⟩ := h.newest
      obtain ⟨hlife', hmax'⟩ := ih hlife
      exact ⟨hlife', by rw [hmax, maxOf_kept hnot, hmax']⟩

/--
**When the original maximum is there.**

In any run of handlings on an autoscaler nobody else sets, whatever its replica
count does in between, and at any point of it: the maximum is the original one
exactly when the patch that came last was the rollback of a freeze that had found
the original one, or a freeze to just as many replicas.
-/
theorem limit_restored_iff (h : Life cfg ns name w₀ l w) (hw : Unfrozen ns name w₀) :
    maxOf ns name w.cluster = maxOf ns name w₀.cluster
      ↔ ∀ x l', Newest cfg ns name l x l' →
          (Freezes cfg ns name x →
            replicasOf ns name x.before.cluster = maxOf ns name w₀.cluster)
          ∧ ∀ r, RollsBack cfg ns name x r → ∃ f ∈ l', ∃ row, Records cfg f row ∧ row.id = r
              ∧ maxOf ns name f.before.cluster = maxOf ns name w₀.cluster := by
  -- without any patch the maximum is untouched
  rcases newest_or_none l with ⟨x, l', hx⟩ | hnone
  · obtain ⟨hlife, hmax⟩ := h.atNewest hx
    rw [hmax]
    constructor
    · intro horig y l'' hy
      obtain ⟨rfl, rfl⟩ := hx.unique hy
      refine ⟨fun hfreeze => (maxOf_of_freezes hfreeze).symm.trans horig, fun r hback => ?_⟩
      obtain ⟨row, _, hid, f, hf, hrec, hfound⟩ := hlife.rolledBack hw hback
      exact ⟨f, hf, row, hrec, hid, hfound.symm.trans horig⟩
    · intro hfound
      obtain ⟨hfroze, hundid⟩ := hfound x l' hx
      by_cases hact : x.message.action = some "rollback"
      · obtain ⟨r, hback⟩ := rollsBack_of_scales hx.scales hact
        obtain ⟨row, _, hid, f, hf, hrec, hleft⟩ := hlife.rolledBack hw hback
        obtain ⟨f', hf', row', hrec', hid', horig⟩ := hundid r hback
        -- the two rows have one id, so one handling wrote them
        obtain rfl := hlife.writer_unique hf hf' hrec hrec' (hid.trans hid'.symm)
        exact hleft.trans horig
      · have hfreeze : Freezes cfg ns name x := ⟨hx.scales, hact⟩
        rw [maxOf_of_freezes hfreeze, hfroze hfreeze]
  · refine ⟨fun _ x l' hx => ?_, fun _ => h.untouched hnone⟩
    exact absurd hx.scales (hnone x hx.self_mem)

/-! ## Two freezes, one inside the other -/

theorem scales_of_any
    (h : ((x.record cfg).any fun e => patchesHpa ns name e.op && e.call.isOk) = true) :
    Scales cfg ns name x := by
  obtain ⟨e, he, hboth⟩ := List.any_eq_true.mp h
  rw [Bool.and_eq_true] at hboth
  obtain ⟨max, hop⟩ := patchesHpa_iff.mp hboth.1
  exact ⟨e, he, ⟨by rw [hop]; rfl, Or.inl hboth.2⟩, max, hop⟩

theorem records_of_append {row : ActionRow K}
    (h : (x.after cfg).actionsLog = x.before.actionsLog ++ [row])
    (hnew : x.before.actionsLog.all (fun r => r.id ≠ row.id) = true) : Records cfg x row := by
  refine ⟨h ▸ List.mem_append_right _ (List.mem_singleton_self _), fun hold => ?_⟩
  simpa using List.all_eq_true.mp hnew row hold

namespace Scenario

/-- A request to roll back the row of the given id. -/
def undo (target : Uuid) : RemediationMessage where
  actionId := some 0
  anomalyId := none
  service := some ""
  action := some "rollback"
  mode := none
  targetActionId := some target

/-- Five replicas of at most ten. -/
def scalable : World ℚ := decided "freeze_scaling" (workload "1" 10 5 (by decide))

def outerFreeze : Handling ℚ := ⟨request "freeze_scaling", scalable, sound id⟩

/-- The workload has scaled down to three, and the service has its budget back. -/
def scaledDown : World ℚ :=
  { outerFreeze.after settings.executor with
      clock := minutes 20
      cluster := workload "1" 5 3 (by decide) }

def innerFreeze : Handling ℚ := ⟨request "freeze_scaling", scaledDown, sound id⟩

def undoOuter : Handling ℚ := ⟨undo 1, innerFreeze.after settings.executor, sound id⟩

def undoInner : Handling ℚ := ⟨undo 2, undoOuter.after settings.executor, sound id⟩

/-- The row of a freeze that found the maximum `found` and set it to `frozen`. -/
def frozenRow (id : Uuid) (now : Time) (found frozen : Nat) : ActionRow ℚ where
  id := id
  anomalyId := none
  parentActionId := some 0
  rollbackRef := none
  actionType := "freeze_scaling"
  mode := "autonomous"
  executedAt := now
  result := .executed
  target := some victim
  priorState := some (freezeRef "shop" "victim-hpa" found)
  appliedState := some s!"froze victim-hpa maxReplicas at {frozen}"
  rollbackDeadline := some (now + minutes 60)

theorem outerFreeze_records : Records settings.executor outerFreeze (frozenRow 1 0 10 5) :=
  records_of_append rfl (by decide)

theorem innerFreeze_records :
    Records settings.executor innerFreeze (frozenRow 2 (minutes 20) 5 3) :=
  records_of_append rfl (by decide +kernel)

theorem scalable_unfrozen : Unfrozen "shop" "victim-hpa" scalable := by
  intro row hrow prior hprior
  obtain rfl := List.mem_singleton.mp hrow
  cases hprior

/-- The outer freeze is undone first. -/
theorem nested_life : Life settings.executor "shop" "victim-hpa" scalable
    [undoInner, undoOuter, innerFreeze, outerFreeze] (undoInner.after settings.executor) := by
  refine .handle undoInner (.handle undoOuter (.handle innerFreeze ?_))
  refine .meanwhile (.handle outerFreeze .start) ⟨by decide +kernel, [], ?_, by simp⟩
  rw [List.append_nil]
  rfl

end Scenario

open Scenario in
/--
**The original maximum is lost.**

Ten is frozen at five, and after the workload has scaled down, five at three. The
outer freeze is undone, then the inner one: each once and in time, all of it
recorded. Five is left.
-/
theorem limit_lost :
    ∃ l w, Life settings.executor "shop" "victim-hpa" scalable l w
      ∧ Unfrozen "shop" "victim-hpa" scalable
      ∧ (∀ x ∈ l, Freezes settings.executor "shop" "victim-hpa" x →
          ∃ row max, Records settings.executor x row ∧ IsFreeze "shop" "victim-hpa" row max)
      ∧ (∀ row max, row ∈ w.actionsLog → IsFreeze "shop" "victim-hpa" row max →
          (∃ x ∈ l, RollsBack settings.executor "shop" "victim-hpa" x row.id)
            ∧ w.actionsLog.countP (reverses row.id) = 1)
      ∧ maxOf "shop" "victim-hpa" scalable.cluster = some 10
      ∧ maxOf "shop" "victim-hpa" w.cluster = some 5 := by
  refine ⟨_, _, nested_life, scalable_unfrozen, ?_, ?_, by decide +kernel, by decide +kernel⟩
  · intro x hx hfreeze
    simp only [List.mem_cons, List.not_mem_nil, or_false] at hx
    rcases hx with rfl | rfl | rfl | rfl
    · exact absurd rfl hfreeze.2
    · exact absurd rfl hfreeze.2
    · exact ⟨_, 5, innerFreeze_records, rfl, rfl⟩
    · exact ⟨_, 10, outerFreeze_records, rfl, rfl⟩
  · intro row max hrow hfreeze
    have hids : (undoInner.after settings.executor).actionsLog.all
        (fun row => row.result ≠ .executed || row.id = 1 || row.id = 2) = true := by
      decide +kernel
    have hid := List.all_eq_true.mp hids row hrow
    simp only [hfreeze.1, ne_eq, not_true_eq_false, decide_false, Bool.false_or, Bool.or_eq_true,
      decide_eq_true_eq] at hid
    rcases hid with hid | hid
    · rw [hid]
      refine ⟨⟨undoOuter, by simp, scales_of_any (by decide +kernel), rfl, rfl⟩, ?_⟩
      decide +kernel
    · rw [hid]
      refine ⟨⟨undoInner, by simp, scales_of_any (by decide +kernel), rfl, rfl⟩, ?_⟩
      decide +kernel

namespace Scenario

/-- The outer freeze, undone with no other inside it. -/
def undone : Handling ℚ := ⟨undo 1, outerFreeze.after settings.executor, sound id⟩

theorem undone_scales : Scales settings.executor "shop" "victim-hpa" undone :=
  scales_of_any (by decide +kernel)

end Scenario

open Scenario in
/-- A freeze that was undone has left nothing. -/
theorem limit_restored_once :
    maxOf "shop" "victim-hpa" (undone.after settings.executor).cluster
      = maxOf "shop" "victim-hpa" scalable.cluster := by
  have hlife : Life settings.executor "shop" "victim-hpa" scalable [undone, outerFreeze]
      (undone.after settings.executor) :=
    .handle undone (.handle outerFreeze .start)
  refine (limit_restored_iff hlife scalable_unfrozen).mpr ?_
  intro x l hx
  obtain ⟨rfl, rfl⟩ := hx.unique (.here undone_scales)
  refine ⟨fun hfreeze => absurd rfl hfreeze.2, fun r hback => ?_⟩
  refine ⟨outerFreeze, List.mem_singleton_self _, _, outerFreeze_records, ?_, rfl⟩
  exact Option.some.inj hback.2.2

end HyperTrace.Proof
