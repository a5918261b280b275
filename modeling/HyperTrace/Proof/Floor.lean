import HyperTrace.Proof.Authority

/-!
# The executor's floor and its rollback window

A rollback is carried out before the protected floor is looked at, and its message
names no service. What keeps it safe is the ledger: a row has a prior state only
if the executor recorded it after a patch of its own, and then the row has a
deadline and the prior state names the namespace that patch went to.

Nothing is assumed about the queue. The executor may be sent anything.
-/

namespace HyperTrace.Proof

open HyperTrace Effect

variable {K : Type} [Scalar K]

variable {cfg : Settings} {P : SysConfig K → SysAct K → Prop} {c : SysConfig K}

/-- The namespace a patch is addressed to. -/
def namespaceOf : Op K → Option String
  | .patchDeployment _ ns _ _ => some ns
  | .patchHpa _ ns _ => some ns
  | _ => none

/-- No protected prefix begins the namespace. -/
def Unprotected (ecfg : Executor.Config) (ns : String) : Prop :=
  ∀ p ∈ ecfg.protectedNamespacePrefixes, startswith ns p = false

theorem unprotected_of_service {ecfg : Executor.Config} {service ns name : String}
    (h : Executor.isProtected ecfg service = false)
    (hsplit : Executor.splitService service = (ns, name)) : Unprotected ecfg ns := by
  intro p hp
  by_contra hstart
  have hns : (partitionSlash service).1 = ns := congrArg Prod.fst hsplit
  have hservice := startswith_of_partition (p := p) (by rw [hns]; simpa using hstart)
  have := List.any_eq_false.mp h p hp
  exact this hservice

omit [Scalar K] in
/-- A throttle or freeze patches an unprotected namespace, and its reference names the same one. -/
theorem contains_namespace {ecfg : Executor.Config} {req : Executor.Request} {h : History K}
    {o : Op K} {ref : Json K} (hc : Executor.Contains ecfg req h o ref) :
    ∃ ns o', namespaceOf o = some ns ∧ Unprotected ecfg ns
      ∧ Executor.reversal ref = .ok (some o') ∧ namespaceOf o' = some ns := by
  cases hc with
  | throttle _ hprot _ hsplit =>
      exact ⟨_, _, rfl, unprotected_of_service hprot hsplit, rfl, rfl⟩
  | freeze _ hprot _ hsplit =>
      exact ⟨_, _, rfl, unprotected_of_service hprot hsplit, rfl, rfl⟩

/-- **A prior state is only found on what the executor recorded after a patch of its own.** -/
structure Recoverable (cfg : Settings) (c : SysConfig K) (row : ActionRow K) (ref : Json K) :
    Prop where
  result : row.result = .executed
  deadline : row.rollbackDeadline =
    some (row.executedAt + minutes cfg.executor.rollbackWindowMinutes)
  reference : ∃ ns o, Unprotected cfg.executor ns ∧ Executor.reversal ref = .ok (some o)
    ∧ namespaceOf o = some ns
  byExecutor : ∃ ins ∈ c.trace, ∃ m, ins.tag = .execute m ∧ ins.op = .insertAction row

theorem recoverable_of_priorState (h : (system cfg).Run P (World.empty K) c) {row : ActionRow K}
    (hrow : row ∈ c.world.actionsLog) {ref : Json K} (href : row.priorState = some ref) :
    Recoverable cfg c row ref := by
  rcases row_inserted h hrow with hw | ⟨e, pre, he, hop, _⟩
  · cases hw
  · have hcalls := calls_of_suffix h he
    rw [hop] at hcalls
    obtain ⟨m, req, id, now, h₀, res, extra, htag, _, rfl, _, ha⟩ :=
      executor_of_inserted (inserted_by hcalls) (Or.inr (by rw [href]; simp))
    -- and it stores a reference only when it contained something
    cases ha with
    | contained reason hc =>
        obtain ⟨ns, o, _, hun, hrev, hns⟩ := contains_namespace hc
        cases href
        exact ⟨rfl, rfl, ⟨ns, o, hun, hrev, hns⟩,
          e, he.subset (List.mem_cons_self ..), m, htag, hop⟩
    | _ => cases href

theorem priorState_some {row : ActionRow K} {prior : Json K}
    (h : Executor.priorState row = some prior) : row.priorState = some prior := by
  unfold Executor.priorState at h
  exact (Option.filter_eq_some_iff.mp h).1

/-- What a rollback patch rests on. -/
structure Restores (cfg : Settings) (c : SysConfig K) (e : SysEvent K) (pre : List (SysEvent K))
    (row : ActionRow K) (ref : Json K) : Prop where
  stored : row ∈ e.before.actionsLog
  priorState : row.priorState = some ref
  recoverable : Recoverable cfg c row ref
  /-- The patch is the one the reference determines. -/
  patch : Executor.reversal ref = .ok (some e.op)
  /-- The deadline was checked, by a look at the clock while it had not passed. -/
  inWindow : ∃ chk ∈ pre, chk.tid = e.tid ∧ chk.op = .now
    ∧ chk.before.clock ≤ row.executedAt + minutes cfg.executor.rollbackWindowMinutes

/-- The row a rollback goes by is the one its request names, and was in the ledger. -/
theorem row_of_loaded (h : (system cfg).Run P (World.empty K) c) {pre : List (SysEvent K)}
    (hpre : pre <:+ c.trace) {i : Nat} {req : Executor.Request} {row : ActionRow K}
    {prior : Json K} {t : History K} (hl : Executor.Loaded req row prior t)
    (ht : ∀ call ∈ t, call ∈ hist pre i) :
    req.targetActionId = some row.id ∧ ∃ el ∈ pre, row ∈ el.after.actionsLog := by
  obtain @⟨target, _, _, htarget, _, hwin⟩ := hl
  have hload : (⟨.actionById target, .ok (some row)⟩ : SysCall K) ∈ hist pre i := by
    refine ht _ ?_
    cases hwin with
    | unlimited => exact List.mem_cons_self ..
    | checked => exact List.mem_cons_of_mem _ (List.mem_cons_self ..)
  obtain ⟨el, prel, x, hel, _, _, hx⟩ := answered h hpre hload
  obtain ⟨hlog, hid⟩ := exec_actionById (congrArg Prod.fst hx)
  exact ⟨by rw [htarget, hid], el, hel.subset (List.mem_cons_self ..),
    (changes_of_exec hx).le.actionsLog.subset hlog⟩

theorem restores_of_reverses (h : (system cfg).Run P (World.empty K) c) {e : SysEvent K}
    {pre : List (SysEvent K)} (he : e :: pre <:+ c.trace) {req : Executor.Request}
    {row : ActionRow K} (hr : Executor.Reverses req row (hist pre e.tid) e.op) :
    ∃ ref, req.targetActionId = some row.id ∧ Restores cfg c e pre row ref := by
  have hpre : pre <:+ c.trace := (List.suffix_cons e pre).trans he
  generalize hh : hist pre e.tid = t at hr
  generalize hop : e.op = o at hr
  obtain @⟨prior, _, _, hl, hrev⟩ := hr
  obtain ⟨hid, el, hel, hlog⟩ := row_of_loaded h hpre hl (i := e.tid) (by rw [hh]; simp)
  obtain @⟨target, _, _, _, hprior, hwin⟩ := hl
  have href := priorState_some hprior
  have hlog' : row ∈ e.before.actionsLog :=
    (h.le_of_suffix (grows cfg) he hel).actionsLog.subset hlog
  have hrec : Recoverable cfg c row prior := by
    refine recoverable_of_priorState h ?_ href
    exact (h.le_of_mem (grows cfg) (he.subset (List.mem_cons_self ..))).actionsLog.subset
      ((changes_of_suffix h he).le.actionsLog.subset hlog')
  refine ⟨prior, hid, hlog', href, hrec, hop ▸ hrev, ?_⟩
  -- every row with a reference has a deadline, and the thread has compared it
  cases hwin with
  | unlimited hnone =>
      rw [hrec.deadline] at hnone
      cases hnone
  | checked now d hd hle =>
      have hmem : (⟨.now, .ok now⟩ : SysCall K) ∈ hist pre e.tid := by
        rw [hh]
        exact List.mem_cons_self ..
      obtain ⟨en, pren, xn, hen, hi, hcall, hxn⟩ := answered h hpre hmem
      have hnow := exec_now (congrArg Prod.fst hxn)
      rw [hrec.deadline] at hd
      refine ⟨en, hen.subset (List.mem_cons_self ..), hi, congrArg Call.op hcall, ?_⟩
      rw [← hnow, Option.some.inj hd]
      exact hle

/--
**The floor and the rollback window hold for every message stream.**

Only the executor patches. No patch goes to a protected namespace; and a rollback
patch is the one determined by the prior state of an executed row that the
executor recorded, checked against the clock inside that row's window.
-/
theorem floor_and_window (h : (system cfg).Run P (World.empty K) c) {e : SysEvent K}
    {pre : List (SysEvent K)} (he : e :: pre <:+ c.trace) (hpatch : isPatch e.op = true) :
    ∃ m ns, e.tag = .execute m ∧ namespaceOf e.op = some ns ∧ Unprotected cfg.executor ns
      ∧ (m.action = some "rollback" →
          ∃ row ref, m.targetActionId = some row.id ∧ Restores cfg c e pre row ref) := by
  obtain ⟨m, req, htag, hparse, hcase⟩ := patched_by hpatch (calls_of_suffix h he)
  obtain ⟨_, _, haction, _, _, htarget⟩ := Executor.parseRequest_ok hparse
  rcases hcase with ⟨ref, hc⟩ | ⟨row, hr⟩
  · obtain ⟨ns, _, hns, hun, _⟩ := contains_namespace hc
    refine ⟨m, ns, htag, hns, hun, fun hroll => ?_⟩
    rw [haction] at hroll
    exact absurd (Option.some.inj hroll) hc.action_ne
  · obtain ⟨ref, hid, hres⟩ := restores_of_reverses h he hr
    obtain ⟨ns, o, hun, hrev, hns⟩ := hres.recoverable.reference
    have ho : o = e.op := by
      have := hrev.symm.trans hres.patch
      cases this
      rfl
    exact ⟨m, ns, htag, ho ▸ hns, hun, fun _ => ⟨row, ref, by rw [← htarget, hid], hres⟩⟩

/-! ## A run with a rollback in it -/

namespace Scenario

/-- The throttle is recorded. -/
def executed : List (SysAct ℚ) := throttled ++ calls 12 4

/-- It is rolled back. -/
def restored : List (SysAct ℚ) :=
  executed ++ [.start (.rollback sre 1)] ++ calls 13 5 ++ [.start (.remediation 0)] ++ calls 14 3

/-- The last thing that happened is a patch for a rollback. -/
def rollsBack (c : SysConfig ℚ) : Bool :=
  match c.trace with
  | ⟨_, .execute m, op, _, _, _⟩ :: _ => isPatch op && m.action = some "rollback"
  | _ => false

theorem of_rollsBack {c : SysConfig ℚ} (h : rollsBack c = true) :
    ∃ e pre m, c.trace = e :: pre ∧ e.tag = .execute m ∧ m.action = some "rollback"
      ∧ isPatch e.op = true := by
  unfold rollsBack at h
  split at h
  · rename_i tid m op res before after pre htr
    simp only [Bool.and_eq_true, decide_eq_true_eq] at h
    exact ⟨_, _, m, htr, rfl, h.2, h.1⟩
  · cases h

end Scenario

open Scenario in
theorem floor_and_window_restored :
    ∃ (c : SysConfig ℚ) (e : SysEvent ℚ) (pre : List (SysEvent ℚ)) (row : ActionRow ℚ)
      (ref : Json ℚ), c.trace = e :: pre ∧ isPatch e.op = true
      ∧ Restores settings c e pre row ref := by
  obtain ⟨c, hrun, hback⟩ := System.exists_run (S := system settings) (w := World.empty ℚ)
    (p := noForgery) (l := restored) (q := rollsBack) (by decide +kernel)
  obtain ⟨e, pre, m, htr, htag, hact, hpatch⟩ := of_rollsBack hback
  have he : e :: pre <:+ c.trace := htr ▸ List.suffix_refl _
  obtain ⟨m', ns, htag', _, _, hroll⟩ := floor_and_window hrun he hpatch
  obtain rfl : m = m' := by
    rw [htag] at htag'
    cases htag'
    rfl
  obtain ⟨row, ref, _, hres⟩ := hroll hact
  exact ⟨c, e, pre, row, ref, htr, hpatch, hres⟩

/-! ## Which namespaces the floor protects -/

/-- What begins an id begins its namespace, or runs past the slash into the workload's name. -/
theorem startswith_service_iff {ns workload p : String} :
    startswith (ns ++ "/" ++ workload) p = true
      ↔ p.toList <+: ns.toList
        ∨ ∃ rest, p.toList = ns.toList ++ '/' :: rest ∧ rest <+: workload.toList := by
  have htext : (ns ++ "/" ++ workload).toList = ns.toList ++ '/' :: workload.toList := by simp
  rw [startswith, List.isPrefixOf_iff_prefix, htext]
  constructor
  · intro h
    rcases List.prefix_or_prefix_of_prefix h (List.prefix_append ..) with hp | ⟨t, ht⟩
    · exact .inl hp
    · rw [← ht, List.prefix_append_right_inj] at h
      rcases List.prefix_cons_iff.mp h with rfl | ⟨rest, rfl, hrest⟩
      · exact .inl (ht ▸ by simp)
      · exact .inr ⟨rest, ht.symm, hrest⟩
  · intro h
    rcases h with hp | ⟨rest, hp, hrest⟩
    · exact hp.trans (List.prefix_append ..)
    · rw [hp, List.prefix_append_right_inj]
      exact List.cons_prefix_cons.mpr ⟨rfl, hrest⟩

/--
The namespace is not listed, but its name continues one that is. An entry that is no
namespace name, with a slash in it, may also run on into the workload's name.
-/
def Lookalike (names : List String) (ns workload : String) : Prop :=
  ns ∉ names ∧ ∃ p ∈ names, p.toList <+: ns.toList
    ∨ ∃ rest, p.toList = ns.toList ++ '/' :: rest ∧ rest <+: workload.toList

/-- Either copy of the check protects the listed namespaces, and their lookalikes. -/
theorem isProtected_iff (ecfg : Executor.Config) (ns workload : String) :
    Executor.isProtected ecfg (ns ++ "/" ++ workload) = true
      ↔ ns ∈ ecfg.protectedNamespacePrefixes
        ∨ Lookalike ecfg.protectedNamespacePrefixes ns workload := by
  unfold Executor.isProtected Lookalike
  simp only [List.any_eq_true, startswith_service_iff]
  constructor
  · intro h
    by_cases hns : ns ∈ ecfg.protectedNamespacePrefixes
    · exact .inl hns
    · exact .inr ⟨hns, h⟩
  · intro h
    rcases h with hns | ⟨-, hp⟩
    · exact ⟨ns, hns, .inl (List.prefix_refl _)⟩
    · exact hp

/-- **When the floor protects exactly the listed namespaces**, in both services. -/
theorem floor_exact_iff (ecfg : Executor.Config) (ns workload : String) :
    ((Decision.isProtected (ns ++ "/" ++ workload) ecfg.protectedNamespacePrefixes = true
          ↔ ns ∈ ecfg.protectedNamespacePrefixes)
        ∧ (Executor.isProtected ecfg (ns ++ "/" ++ workload) = true
          ↔ ns ∈ ecfg.protectedNamespacePrefixes))
      ↔ ¬ Lookalike ecfg.protectedNamespacePrefixes ns workload := by
  have hcopy : Decision.isProtected (ns ++ "/" ++ workload) ecfg.protectedNamespacePrefixes
      = Executor.isProtected ecfg (ns ++ "/" ++ workload) := rfl
  rw [hcopy, and_self, isProtected_iff]
  constructor
  · intro h hlook
    exact hlook.1 (h.mp (.inr hlook))
  · intro hlook
    simp only [hlook, or_false]

open Scenario in
theorem lookalike_protected :
    Decision.isProtected "kube-system-lookalike/web"
        settings.executor.protectedNamespacePrefixes = true
      ∧ Executor.isProtected settings.executor "kube-system-lookalike/web" = true
      ∧ "kube-system-lookalike" ∉ settings.executor.protectedNamespacePrefixes := by
  decide +kernel

end HyperTrace.Proof
