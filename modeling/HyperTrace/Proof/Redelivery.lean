import HyperTrace.Proof.Alone
import HyperTrace.Proof.Cluster
import HyperTrace.Proof.Floor
import HyperTrace.Proof.Handling

/-!
# A message delivered twice

The broker delivers a message again when its ack was lost, however long ago that
was. What makes the second handling harmless depends on the action. A throttle or
freeze that patched finds, the next time, the very value it would set. A rollback
recalls the same row and sets the same value again, unless the row has expired.
-/

namespace HyperTrace.Proof

open HyperTrace Effect Executor

variable {K : Type}

/-- **A patch that was accepted changes nothing when it is sent again.** -/
theorem sent_twice {o : Op K} {cl cl' cl'' : Cluster} (h : sent o cl = (.ok (), cl'))
    (h' : sent o cl' = (.ok (), cl'')) : cl'' = cl' := by
  cases o with
  | patchDeployment name ns container cpu => exact Cluster.patchDeployment_twice h h'
  | patchHpa name ns max => exact Cluster.patchHpa_twice h h'
  | _ => cases h; cases h'; rfl

/-- **What a throttle or freeze has patched, it does not find to be patched again.** -/
theorem not_finds_of_sent {req : Request} {cl cl' : Cluster} {o : Op K} {ref : Json K}
    (h : Finds req cl o ref) (hsent : sent o cl = (.ok (), cl')) {o' : Op K} {ref' : Json K} :
    ¬ Finds req cl' o' ref' := by
  intro h'
  -- the patch leaves the very value that is checked for before patching
  cases h with
  | @throttle ns name d hact hsplit hd hne =>
      obtain rfl : cl.setDeployment ns name (d.limitFirst (some throttleCpuLimit)) = cl' :=
        congrArg Prod.snd ((Cluster.patchDeployment_first (K := K) hd _).symm.trans hsent)
      cases h' with
      | throttle _ hsplit' hd' hne' =>
          cases hsplit.symm.trans hsplit'
          rw [Cluster.setDeployment_self] at hd'
          obtain rfl := Option.some.inj hd'
          exact hne' (d.limitFirst_cpuLimit _)
      | freeze hact' => exact absurd (hact.symm.trans hact') (by decide)
  | @freeze ns name hpa n hact hsplit hhpa hcur hne =>
      obtain ⟨hpa₁, hpa', hhpa₁, hmax, rfl, _⟩ := Cluster.hpa_of_patchHpa (K := K) hsent
      obtain rfl : hpa = hpa₁ := Option.some.inj ((Cluster.hpa_of_hpaOf hhpa).symm.trans hhpa₁)
      obtain ⟨_, hset⟩ := Hpa.withMaxReplicas_set hmax
      have hseen : (cl.setHpa ns hpa.name hpa').hpaOf ns name = some hpa' :=
        Cluster.hpaOf_setHpa hhpa (by rw [hset]) (by rw [hset])
      cases h' with
      | throttle hact' => exact absurd (hact.symm.trans hact') (by decide)
      | freeze _ hsplit' hhpa' hcur' hne' =>
          cases hsplit.symm.trans hsplit'
          obtain rfl := Option.some.inj (hseen.symm.trans hhpa')
          rw [hset] at hcur' hne'
          exact hne' (Option.some.inj (hcur.symm.trans hcur'))

section

variable [Scalar K] {cfg : Executor.Config} {x y : Handling K}

/-- In a ledger that has only grown a rollback recalls the same row, and the same patch. -/
theorem recalls_unique {req : Request} {v w : World K} {row row' : ActionRow K} {o o' : Op K}
    (h : Recalls req v row o) (h' : Recalls req w row' o') (hle : v.actionsLog <+: w.actionsLog) :
    o' = o := by
  obtain @⟨t, _, prior, _, _, htarget, hrow, hprior, hrev⟩ := h
  obtain @⟨t', _, prior', _, _, htarget', hrow', hprior', hrev'⟩ := h'
  obtain rfl : t = t' := Option.some.inj (htarget.symm.trans htarget')
  obtain ⟨rows, hrows⟩ := hle
  have hfound : w.actionById t = some row := by
    rw [World.actionById] at hrow
    rw [World.actionById, ← hrows, List.find?_append, hrow, Option.some_or]
  obtain rfl : row = row' := Option.some.inj (hfound.symm.trans hrow')
  obtain rfl : prior = prior' := Option.some.inj (hprior.symm.trans hprior')
  cases hrev.symm.trans hrev'
  rfl

/--
**A message may be delivered twice.**

When a handling has patched the cluster, the same message, handled again in any
world with the cluster and the ledger it left, at whatever time and however its
calls fail, leaves the cluster as it is and marks no row as executed.
-/
theorem redelivery_harmless (hpatched : ∃ e ∈ x.record cfg, TookEffect e)
    (hmessage : y.message = x.message) (hcluster : y.before.cluster = (x.after cfg).cluster)
    (hledger : y.before.actionsLog = (x.after cfg).actionsLog) :
    (y.after cfg).cluster = (x.after cfg).cluster
      ∧ ∃ rows, (y.after cfg).actionsLog = (x.after cfg).actionsLog ++ rows
        ∧ ∀ row ∈ rows, row.result ≠ .executed := by
  obtain ⟨e, he, heff⟩ := hpatched
  have hsent := Handling.sent_of_tookEffect he heff
  obtain ⟨pre, hsuf⟩ := exists_suffix_of_mem he
  obtain ⟨req, hp, hcase⟩ := Handling.patch_found hsuf heff.1
  obtain ⟨rows₁, hrows₁, _⟩ := x.appended cfg
  -- the second handling finds nothing left to throttle or freeze
  have hnothing : ∀ {o : Op K} {ref : Json K}, ¬ Finds req y.before.cluster o ref := by
    intro o ref hfinds
    rcases hcase with ⟨ref', hfinds'⟩ | ⟨row, hrecalls⟩
    · exact not_finds_of_sent hfinds' hsent (hcluster ▸ hfinds)
    · obtain ⟨hroll, _⟩ := hrecalls
      exact hfinds.action_ne hroll
  have hreq : ∀ {req' : Request}, parseRequest y.message = .ok req' → req' = req := by
    intro req' hp'
    rw [hmessage, hp] at hp'
    exact (Except.ok.inj hp').symm
  constructor
  · rw [← hcluster]
    by_cases heff' : ∃ e' ∈ y.record cfg, TookEffect e'
    · -- the second handling patched, so both of them are rollbacks
      obtain ⟨e', he', heff'⟩ := heff'
      have hsent' := Handling.sent_of_tookEffect he' heff'
      obtain ⟨pre', hsuf'⟩ := exists_suffix_of_mem he'
      obtain ⟨req', hp', ⟨ref', hfinds'⟩ | ⟨row', hrecalls'⟩⟩ := Handling.patch_found hsuf' heff'.1
      · exact absurd (hreq hp' ▸ hfinds') hnothing
      · obtain rfl := hreq hp'
        rcases hcase with ⟨ref, hfinds⟩ | ⟨row, hrecalls⟩
        · obtain ⟨hroll, _⟩ := hrecalls'
          exact absurd hroll hfinds.action_ne
        · have hle : x.before.actionsLog <+: y.before.actionsLog := by
            rw [hledger, hrows₁]
            exact List.prefix_append ..
          rw [recalls_unique hrecalls hrecalls' hle] at hsent'
          rw [hcluster] at hsent' ⊢
          exact sent_twice hsent hsent'
    · exact Handling.cluster_kept fun e' he' h => heff' ⟨e', he', h⟩
  · obtain ⟨rows, hrows, hall⟩ := y.appended cfg
    refine ⟨rows, hledger ▸ hrows, ?_⟩
    intro row hrow
    rcases (hall row hrow).2 with ⟨hres, _⟩ | ⟨_, _, _, req', ref, hp', hfinds, _⟩
    · exact hres
    · exact absurd (hreq hp' ▸ hfinds) hnothing

omit [Scalar K] in
/-- A patch that was answered took effect. -/
theorem tookEffect_of_any {l : List (Did K)}
    (h : (l.any fun e => isPatch e.op && e.call.isOk) = true) : ∃ e ∈ l, TookEffect e := by
  obtain ⟨e, he, hboth⟩ := List.any_eq_true.mp h
  rw [Bool.and_eq_true] at hboth
  exact ⟨e, he, hboth.1, Or.inl hboth.2⟩

end

namespace Scenario

/-- The row of a decision that was dispatched. -/
def order (action : String) : ActionRow ℚ where
  id := 0
  anomalyId := none
  parentActionId := none
  rollbackRef := none
  actionType := action
  mode := "autonomous"
  executedAt := 0
  result := .dispatched
  target := some victim
  priorState := none
  appliedState := none
  rollbackDeadline := none

/-- A world in which the decision waits to be carried out. -/
def decided (action : String) (cl : Cluster) : World ℚ :=
  { World.empty ℚ with
      nextUuid := 1
      actionsLog := [order action]
      cluster := cl }

/-- The request that carries it out. -/
def request (action : String) : RemediationMessage where
  actionId := some 0
  anomalyId := none
  service := some victim
  action := some action
  mode := none
  targetActionId := none

def throttling : Handling ℚ := ⟨request "throttle", decided "throttle" cluster, sound id⟩

/-- The same request an hour later, when no rate limit remembers it any more. -/
def throttledAgain : Handling ℚ :=
  { throttling with
      before := { throttling.after settings.executor with clock := minutes 60 } }

end Scenario

open Scenario in
theorem redelivery_harmless_throttled :
    (throttledAgain.after settings.executor).cluster = (throttling.after settings.executor).cluster
      ∧ ∃ rows, (throttledAgain.after settings.executor).actionsLog
          = (throttling.after settings.executor).actionsLog ++ rows
        ∧ ∀ row ∈ rows, row.result ≠ .executed :=
  redelivery_harmless (x := throttling) (y := throttledAgain)
    (tookEffect_of_any (by decide +kernel)) rfl rfl rfl

open Scenario in
/-- The first handling is recorded as executed, the second as nothing to do. -/
example : (throttledAgain.after settings.executor).actionsLog.map ActionRow.result
    = [.dispatched, .executed, .noOp] := by
  decide +kernel

end HyperTrace.Proof
