import HyperTrace.Proof.ApiCalls
import HyperTrace.Proof.DecisionCalls
import HyperTrace.Proof.DetectorCalls
import HyperTrace.Proof.ExecutorCalls

/-!
# What each thread calls

The transcripts of the handlers, put together over the tags of the running system,
and carried to the traces of its runs: every recorded call is one its thread might
make after what it had called before.
-/

namespace HyperTrace.Proof

open HyperTrace Effect

variable {K : Type}

/-- What a delivery may call: what its handler may, and in the end one ack or nack. -/
inductive Delivers (consumer : Consumer) (may : History K → Op K → Prop)
    (ends : History K → Except Err Unit → Prop) : History K → Op K → Prop where
  | handle {h : History K} {o : Op K} : may h o → Unsettled h → Delivers consumer may ends h o
  | settle {h : History K} {r : Except Err Unit} : ends h r → Unsettled h →
      Delivers consumer may ends h (.settle consumer (acked r))

/-- A delivery that was settled. -/
inductive Settled (consumer : Consumer) (ends : History K → Except Err Unit → Prop) :
    History K → Prop where
  | mk {h : History K} {r : Except Err Unit} {ack : Bool} {res : Except Err Unit} : ends h r →
      Unsettled h → Settled consumer ends (⟨.settle consumer ack, res⟩ :: h)

section

variable [Scalar K]

/-- What a thread may call after which transcript. -/
def Calls (cfg : Settings) : Tag K → History K → Op K → Prop
  | .traffic m => Delivers .behaviourTraffic (Behaviour.MayTraffic m) fun _ _ => True
  | .cost m => Delivers .behaviourCost (Behaviour.May m) (Behaviour.Ends m)
  | .lifecycle _ => Delivers .decisionLifecycle (fun _ o => acts o = false) fun t _ => Idle t
  | .security _ => Delivers .decisionSecurity (fun _ o => acts o = false) fun t _ => Idle t
  | .anomaly m =>
      Delivers .decisionAnomalies (Decision.May cfg.decision m) (Decision.Ends cfg.decision m)
  | .approve user anomalyId => Api.May (Api.Approves user anomalyId)
  | .rollback user anomalyId => Api.May (Api.Reverses user anomalyId)
  | .createPolicy _ _ => fun _ o => acts o = false
  | .deletePolicy _ _ => fun _ o => acts o = false
  | .execute m =>
      Delivers .executorActions (Executor.May cfg.executor m) (Executor.Ends cfg.executor m)

/-- With which transcript a thread ends, and how. -/
def Ends (cfg : Settings) : Tag K → History K → Except Err Reply → Prop
  | .traffic _ => fun t _ => Settled .behaviourTraffic (fun _ _ => True) t
  | .cost m => fun t _ => Settled .behaviourCost (Behaviour.Ends m) t
  | .lifecycle _ => fun t _ => Settled .decisionLifecycle (fun t _ => Idle t) t
  | .security _ => fun t _ => Settled .decisionSecurity (fun t _ => Idle t) t
  | .anomaly m => fun t _ => Settled .decisionAnomalies (Decision.Ends cfg.decision m) t
  | .approve user anomalyId => Api.Ends (Api.Approves user anomalyId)
  | .rollback user anomalyId => Api.Ends (Api.Reverses user anomalyId)
  | .createPolicy _ _ => fun t _ => Idle t
  | .deletePolicy _ _ => fun t _ => Idle t
  | .execute m => fun t _ => Settled .executorActions (Executor.Ends cfg.executor m) t

omit [Scalar K] in
theorem delivers_obeys {consumer : Consumer} {p : Py K Unit} {may : History K → Op K → Prop}
    {ends : History K → Except Err Unit → Prop} (hp : p.Obeys (anyAnswer may) ends [])
    (hmay : ∀ t o, may t o → isSettle o = false) :
    (callback consumer p).Obeys (anyAnswer (Delivers consumer may ends))
      (fun t _ => Settled consumer ends t) [] := by
  have hhandle : p.Obeys (anyAnswer (Delivers consumer may ends))
      (fun t r => ends t r ∧ Unsettled t) [] :=
    (hp.history (q := fun o => isSettle o = false) hmay (by simp)).weaken
      (fun t o ho => .handle ho.1 ho.2) fun t o r hr => hr
  refine (callback_obeys hhandle fun t r hr => .settle hr.1 hr.2).mono ?_
  intro t r hx
  obtain ⟨h, r', ack, res, hr, ht⟩ := hx
  rw [ht]
  exact .mk hr.1 hr.2

omit [Scalar K] in
theorem isSettle_of_read {o : Op K} (ho : acts o = false) : isSettle o = false := by
  cases o <;> first | rfl | cases ho

omit [Scalar K] in
theorem isSettle_of_isPatch {o : Op K} (ho : isPatch o = true) : isSettle o = false := by
  cases o <;> first | rfl | cases ho

/-! No handler settles its own delivery: that is left to its callback. -/

theorem isSettle_of_mayTraffic {m : TrafficSample K} {t : History K} {o : Op K}
    (h : Behaviour.MayTraffic m t o) : isSettle o = false := by
  cases h <;> rfl

theorem isSettle_of_mayCost {m : CostEvent K} {t : History K} {o : Op K}
    (h : Behaviour.May m t o) : isSettle o = false := by
  cases h with
  | early _ ho => cases o <;> first | rfl | cases ho
  | _ => rfl

theorem isSettle_of_mayDecide {config : Decision.Config} {m : AnomalyMessage K} {t : History K}
    {o : Op K} (h : Decision.May config m t o) : isSettle o = false := by
  cases h with
  | read ho => exact isSettle_of_read ho
  | _ => rfl

theorem isSettle_of_mayExecute {config : Executor.Config} {m : RemediationMessage} {t : History K}
    {o : Op K} (h : Executor.May config m t o) : isSettle o = false := by
  cases h with
  | read ho => exact isSettle_of_read ho
  | patch _ hc => exact isSettle_of_isPatch hc.isPatch
  | reverse _ hr => exact isSettle_of_isPatch hr.isPatch
  | insert => rfl

omit [Scalar K] in
theorem handleLifecycle_obeys (m : LifecycleEvent) :
    (Decision.handleLifecycle (K := K) m).Obeys (anyAnswer fun _ o => acts o = false)
      (fun t _ => Idle t) [] := by
  unfold Decision.handleLifecycle
  split
  · exact .nil
  · split
    · exact .nil
    · split
      · exact .nil
      · exact obeys_call rfl (fun _ => obeys_last rfl fun _ => .cons rfl (.cons rfl .nil))
          fun _ => .cons rfl .nil

omit [Scalar K] in
theorem handleSecuritySignal_obeys (m : SecuritySignal) :
    (Decision.handleSecuritySignal (K := K) m).Obeys (anyAnswer fun _ o => acts o = false)
      (fun t _ => Idle t) [] :=
  obeys_call rfl (fun _ => obeys_last rfl fun _ => .cons rfl (.cons rfl .nil))
    fun _ => .cons rfl .nil

/-- **Every program keeps to its transcripts.** -/
theorem program_obeys (cfg : Settings) (tag : Tag K) :
    (program cfg tag).Obeys (anyAnswer (Calls cfg tag)) (Ends cfg tag) [] := by
  cases tag with
  | traffic m =>
      exact delivers_obeys (Behaviour.handleTraffic_obeys m) fun _ _ => isSettle_of_mayTraffic
  | cost m => exact delivers_obeys (Behaviour.handleCost_obeys m) fun _ _ => isSettle_of_mayCost
  | lifecycle m => exact delivers_obeys (handleLifecycle_obeys m) fun _ _ => isSettle_of_read
  | security m => exact delivers_obeys (handleSecuritySignal_obeys m) fun _ _ => isSettle_of_read
  | anomaly m =>
      exact delivers_obeys (Decision.handleAnomaly_obeys cfg.decision m)
        fun _ _ => isSettle_of_mayDecide
  | approve user a => exact Api.approveAction_obeys user a
  | rollback user a => exact Api.rollbackAction_obeys user a
  | createPolicy user p => exact Api.createPolicy_obeys (fun t o ho => ho) user p
  | deletePolicy user id => exact Api.deletePolicy_obeys (fun t o ho => ho) user id
  | execute m =>
      exact delivers_obeys (Executor.handle_obeys cfg.executor m) fun _ _ => isSettle_of_mayExecute

/-! ## In a run -/

variable {cfg : Settings} {P : SysConfig K → SysAct K → Prop} {w : World K} {c : SysConfig K}

theorem exec_local {w : World K} {o : Op K} {x : Choice} (ho : isLocal o = true) :
    ∃ a, (exec w o x).1 = .ok a := by
  cases o <;> first | exact ⟨_, rfl⟩ | cases ho

theorem thread_obeys (h : (system cfg).Run P w c) {i : Nat}
    {t : Thread (Op K) Op.Res Err (Tag K) Reply} (ht : c.threads[i]? = some t) :
    t.prog.Obeys (anyAnswer (Calls cfg t.tag)) (Ends cfg t.tag) (hist c.trace i) := by
  refine System.Run.obeys (D := fun tag => anyAnswer (Calls cfg tag)) (Q := Ends cfg) ?_ ?_ h ht
  · intro c x w' tag p _ _ hs
    obtain ⟨_, rfl⟩ := start_starts hs
    exact program_obeys cfg tag
  · intro c i x tag o k _ _ _ _ ho
    obtain ⟨a, ha⟩ := exec_local (w := c.world) (x := x) ho
    dsimp only [system]
    rw [ha]
    rfl

/-- **Every recorded call was one its thread might make.** -/
theorem calls_of_suffix (h : (system cfg).Run P w c) {e : SysEvent K} {pre : List (SysEvent K)}
    (he : e :: pre <:+ c.trace) : Calls cfg e.tag (hist pre e.tid) e.op := by
  obtain ⟨c₀, x, k, hr, _, _, htr, ht, _⟩ := h.origin he
  have hob := thread_obeys hr ht
  exact htr ▸ hob.1

theorem calls_of_next (h : (system cfg).Run P w c) {i : Nat} {tag : Tag K} {o : Op K}
    {k : Except Err o.Res → Py K Reply} (ht : c.threads[i]? = some ⟨tag, .op o k⟩) :
    Calls cfg tag (hist c.trace i) o :=
  (thread_obeys h ht).1

theorem exec_of_suffix (h : (system cfg).Run P w c) {e : SysEvent K} {pre : List (SysEvent K)}
    (he : e :: pre <:+ c.trace) : ∃ x, exec e.before e.op x = (e.res, e.after) := by
  obtain ⟨_, x, _, _, _, _, _, _, hx⟩ := h.origin he
  exact ⟨x, hx⟩

theorem changes_of_suffix (h : (system cfg).Run P w c) {e : SysEvent K} {pre : List (SysEvent K)}
    (he : e :: pre <:+ c.trace) : Changes e.before e.op e.after := by
  obtain ⟨x, hx⟩ := exec_of_suffix h he
  exact changes_of_exec hx

end

end HyperTrace.Proof
