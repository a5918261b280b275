import HyperTrace.Effect.Rest
import HyperTrace.Proof.Authority
import HyperTrace.Proof.Deliveries

/-!
# Left alone, the system comes to rest

A reading of the detector leads to an anomaly, an anomaly or a request of a user to a
remediation request, and a remediation request to nothing more. So once no more messages
and requests come in from outside, and the threads that can go on do, every queue is worked
off, every handler ends, and every consumer is free again.
-/

namespace HyperTrace.Proof

open HyperTrace Effect

variable {K : Type}

/-- How far a handler is from the cluster. -/
def stageOf : Tag K → ℕ
  | .cost _ => 2
  | .anomaly _ => 1
  | .approve _ _ => 1
  | .rollback _ _ => 1
  | _ => 0

/-- The stage of the handler that will get what a call publishes. -/
def publishes : Op K → Multiset ℕ
  | .basicPublish (.anomaly _) => {1}
  | .basicPublish (.remediation _) => {0}
  | _ => 0

/-- The stages of the messages in the two queues. -/
def waiting (w : World K) : Multiset ℕ :=
  .replicate w.anomalyQueue.length 1 + .replicate w.remediationQueue.length 0

/-- The acts that bring a message or a request from outside. -/
def arrives : SysAct K → Prop
  | .start (.anomaly _) => False
  | .start (.remediation _) => False
  | .start _ => True
  | .step _ _ => False
  | .env (.tick _) => False
  | .env (.changeCluster _) => False
  | .env _ => True

theorem waiting_exec [Scalar K] (w : World K) (o : Op K) (x : Choice) :
    ∃ ms ≤ publishes o, waiting (exec w o x).2 = waiting w + ms := by
  have hch := exec_changes w o x
  rcases hch.anomalyQueue with ha | ⟨m, rfl, ha⟩
  · rcases hch.remediationQueue with hr | ⟨m, rfl, hr⟩
    · exact ⟨0, Multiset.zero_le _, by rw [waiting, ha, hr, waiting, add_zero]⟩
    · refine ⟨{0}, le_refl _, ?_⟩
      rw [waiting, ha, hr, waiting, List.length_append, List.length_singleton,
        Multiset.replicate_add, Multiset.replicate_one, add_assoc]
  · rcases hch.remediationQueue with hr | ⟨m', hop, -⟩
    · refine ⟨{1}, le_refl _, ?_⟩
      rw [waiting, ha, hr, waiting, List.length_append, List.length_singleton,
        Multiset.replicate_add, Multiset.replicate_one, add_right_comm]
    · cases hop

theorem waiting_env (w : World K) (e : Env) (he : ¬ arrives (K := K) (.env e)) :
    waiting (w.env e) = waiting w := by
  cases e with
  | tick n => rfl
  | changeCluster cl => rfl
  | _ => exact absurd trivial he

theorem replicate_eraseIdx {α : Type} {l : List α} {n : ℕ} {a : α} (h : l[n]? = some a) (k : ℕ) :
    Multiset.replicate l.length k = {k} + Multiset.replicate (l.eraseIdx n).length k := by
  have hlt := (List.getElem?_eq_some_iff.mp h).1
  rw [← Multiset.replicate_one, ← Multiset.replicate_add, List.length_eraseIdx_of_lt hlt]
  congr 1
  omega

section

variable [Scalar K] {cfg : Settings} {P : SysConfig K → SysAct K → Prop} {c : SysConfig K}

theorem waiting_start {w w' : World K} {n : ℕ} {x : Start K} {tag : Tag K} {p : Py K Reply}
    (hs : (system cfg).start w n x = some (w', tag, p)) (hx : ¬ arrives (.start x)) :
    waiting w = {stageOf tag} + waiting w' := by
  obtain ⟨hst, -⟩ := start_starts hs
  rcases hst.anomaly with ⟨m, k, rfl, hk, ha, -⟩ | ⟨hna, ha, -⟩
  · rcases hst.remediation with ⟨m', k', htag, -⟩ | ⟨-, hr, -⟩
    · cases htag
    · rw [waiting, replicate_eraseIdx hk, add_assoc, ← ha, ← hr]
      rfl
  · rcases hst.remediation with ⟨m, k, rfl, hk, hr, -⟩ | ⟨hnr, -⟩
    · rw [waiting, replicate_eraseIdx hk, add_left_comm, ← ha, ← hr]
      rfl
    · -- what a queue is taken for is one of the two
      exfalso
      simp only [system, Option.map_eq_some_iff, Prod.exists, Prod.mk.injEq] at hs
      obtain ⟨w₁, tag₁, hb, rfl, rfl, rfl⟩ := hs
      cases x with
      | anomaly k =>
          simp only [begin] at hb
          split at hb
          · cases hb
          · obtain ⟨_, _, heq⟩ := Option.map_eq_some_iff.mp hb
            cases heq
            exact hna _ rfl
      | remediation k =>
          simp only [begin] at hb
          split at hb
          · cases hb
          · obtain ⟨_, _, heq⟩ := Option.map_eq_some_iff.mp hb
            cases heq
            exact hnr _ rfl
      | _ => exact hx trivial

/-- The stages of the running system. -/
def stages (cfg : Settings) : Stages (system (K := K) cfg) where
  stage := stageOf
  backlog := waiting
  sends := publishes
  arrives := arrives
  exec := waiting_exec
  start := waiting_start
  env := waiting_env

theorem descends (h : (system cfg).Run P (World.empty K) c) : (stages cfg).Descends c := by
  intro i tag o k ht l hl
  have hcalls := calls_of_next h ht
  cases o with
  | basicPublish p =>
      cases p with
      | anomaly m =>
          obtain ⟨m', _, _, _, _, rfl, _⟩ := anomaly_published_by hcalls
          rw [Multiset.mem_singleton.mp hl]
          exact Nat.one_lt_two
      | remediation m =>
          rw [Multiset.mem_singleton.mp hl]
          cases published_by hcalls with
          | decision => exact Nat.one_pos
          | approve => exact Nat.one_pos
          | rollback => exact Nat.one_pos
  | _ => cases hl

/-! ## Where nothing can be done -/

theorem released (w : World K) (consumer : Consumer) (ack : Bool) (x : Choice) :
    (exec w (.settle consumer ack) x).2.busy consumer = none := by
  have hw : (w.release consumer).busy consumer = none := if_pos rfl
  exact faulty_snd (p := fun w => w.busy consumer = none) hw hw

/-- A delivery comes to its end after it was settled. -/
theorem settled_of_ends {tag : Tag K} {t : History K} {r : Except Err Reply} {consumer : Consumer}
    (h : Ends cfg tag t r) (hc : consumerOf tag = some consumer) : ¬ Unsettled t := by
  have hsettled : ∀ {consumer : Consumer} {ends : History K → Except Err Unit → Prop},
      Settled consumer ends t → ¬ Unsettled t := by
    intro consumer ends hs hu
    cases hs with
    | mk => cases hu _ (List.mem_cons_self ..)
  cases tag with
  | traffic | cost | lifecycle | security | anomaly | execute => exact hsettled h
  | _ => cases hc

/-- Who keeps a consumer busy has not settled its delivery. -/
theorem unsettled_of_busy (h : (system cfg).Run P (World.empty K) c) {i : ℕ} {consumer : Consumer}
    (hb : c.world.busy consumer = some i) :
    ∃ t, c.threads[i]? = some t ∧ consumerOf t.tag = some consumer
      ∧ Unsettled (hist c.trace i) := by
  induction h generalizing i with
  | init => cases hb
  | @tail c c' a hr hp hs ih =>
      rcases System.step_cases hs with ⟨x, w', tag, p, _, hst, rfl⟩ |
        ⟨j, x, tag, o, k, _, hj, rfl⟩ | ⟨v, _, rfl⟩
      · obtain ⟨hstarts, -⟩ := start_starts hst
        dsimp only at hb ⊢
        rw [hstarts.busy] at hb
        split at hb
        · rename_i htag
          obtain rfl := Option.some.inj hb
          refine ⟨⟨tag, p⟩, List.getElem?_concat_length, htag, ?_⟩
          rw [hist_eq_nil fun e he => Nat.ne_of_lt (hr.tid_lt he)]
          exact fun call hcall => by cases hcall
        · obtain ⟨t, ht, htag, hu⟩ := ih hb
          have hlt := (List.getElem?_eq_some_iff.mp ht).1
          exact ⟨t, by rwa [List.getElem?_append_left hlt], htag, hu⟩
      · -- the consumer is still busy, so nobody has settled its delivery just now
        have hkept : c.world.busy consumer = some i ∧ ∀ ack, o ≠ .settle consumer ack := by
          have hne : ∀ ack, o ≠ .settle consumer ack := by
            rintro ack rfl
            exact absurd (hb.symm.trans (released c.world consumer ack x)) (by simp)
          rcases (exec_changes c.world o x).busy consumer with hsame | ⟨ack, hack⟩
          · exact ⟨hsame.symm.trans hb, hne⟩
          · exact absurd hack (hne ack)
        obtain ⟨t, ht, htag, hu⟩ := ih hkept.1
        by_cases hij : j = i
        · subst hij
          rw [hj] at ht
          cases ht
          refine ⟨_, List.getElem?_set_self (List.getElem?_eq_some_iff.mp hj).1, htag, ?_⟩
          intro call hcall
          have hhist := congrArg (call ∈ ·) (hist_cons_self
            (⟨j, tag, o, (exec c.world o x).1, c.world, (exec c.world o x).2⟩ : SysEvent K)
            c.trace)
          rcases List.mem_cons.mp (hhist.mp hcall) with rfl | hcall
          · -- a settle of the thread would be one of its consumer
            cases o with
            | settle consumer' ack =>
                obtain ⟨hown, -⟩ := settle_of_calls (calls_of_next hr hj)
                rw [htag] at hown
                cases hown
                exact absurd rfl (hkept.2 ack)
            | _ => rfl
          · exact hu call hcall
        · refine ⟨t, by rwa [List.getElem?_set_ne hij], htag, ?_⟩
          rw [hist_cons_ne (by exact hij)]
          exact hu
      · have hsame : (c.world.env v).busy = c.world.busy := by cases v <;> rfl
        exact ih (hsame ▸ hb)

/-- Every message was taken, every handler has ended, and every consumer waits for more. -/
structure AtRest (c : SysConfig K) : Prop where
  anomalies : c.world.anomalyQueue = []
  requests : c.world.remediationQueue = []
  handlers : ∀ t ∈ c.threads, t.prog.isDone = true
  consumers : ∀ consumer, c.world.busy consumer = none

/-- **Where nothing can be done, nothing is left to do.** -/
theorem atRest_of_idle (h : (system cfg).Run P (World.empty K) c) (hidle : (stages cfg).Idle c) :
    AtRest c := by
  have hdone : ∀ t ∈ c.threads, t.prog.isDone = true := by
    intro t ht
    obtain ⟨i, hi⟩ := List.mem_iff_getElem?.mp ht
    obtain ⟨tag, p⟩ := t
    cases p with
    | op o k =>
        have hstep := hidle (.step i .ok) ⟨id, id⟩
        simp only [System.step, hi] at hstep
        cases hstep
    | _ => rfl
  have hfree : ∀ consumer, c.world.busy consumer = none := by
    intro consumer
    cases hb : c.world.busy consumer with
    | none => rfl
    | some i =>
        obtain ⟨t, ht, htag, hu⟩ := unsettled_of_busy h hb
        obtain ⟨r, hends⟩ := (thread_obeys h ht).of_isDone (hdone t (List.mem_of_getElem? ht))
        exact absurd hu (settled_of_ends hends htag)
  refine ⟨?_, ?_, hdone, hfree⟩
  · cases hq : c.world.anomalyQueue with
    | nil => rfl
    | cons m ms =>
        have hstart := hidle (.start (.anomaly 0)) ⟨id, id⟩
        simp [System.step, system, begin, hq, World.take, hfree] at hstart
  · cases hq : c.world.remediationQueue with
    | nil => rfl
    | cons m ms =>
        have hstart := hidle (.start (.remediation 0)) ⟨id, id⟩
        simp [System.step, system, begin, hq, World.take, hfree] at hstart

/-- At rest nothing can be done, whether or not the state can be reached. -/
theorem idle_of_atRest (hc : AtRest c) : (stages cfg).Idle c := by
  intro a hworks
  cases a with
  | start x =>
      cases x with
      | anomaly k => simp [System.step, system, begin, hc.anomalies]
      | remediation k => simp [System.step, system, begin, hc.requests]
      | _ => exact absurd trivial hworks.1
  | step i x =>
      cases ht : c.threads[i]? with
      | none => simp only [System.step, ht]
      | some t =>
          have hdone := hc.handlers t (List.mem_of_getElem? ht)
          obtain ⟨tag, p⟩ := t
          cases p with
          | op o k => cases hdone
          | _ => simp only [System.step, ht]
  | env e => exact absurd trivial hworks.2

/-- And it stays so until something arrives. -/
theorem AtRest.stays {E : (system (K := K) cfg).Execution} {n : ℕ} (hn : AtRest (E.config n))
    (hquiet : ∀ k, n ≤ k → ¬ arrives (E.act k)) {m : ℕ} (hnm : n ≤ m) : AtRest (E.config m) := by
  induction m, hnm using Nat.le_induction with
  | base => exact hn
  | succ m hnm ih =>
      have hidle : (stages cfg).Idle (E.config m) := idle_of_atRest ih
      have hstep := E.steps m
      rcases System.step_cases hstep with ⟨x, _, _, _, ha, _⟩ | ⟨i, x, _, _, _, ha, _⟩ |
        ⟨e, ha, hc⟩
      · -- nothing can be taken
        have hnone := hidle (E.act m) ⟨hquiet m hnm, ha ▸ id⟩
        rw [hnone] at hstep
        cases hstep
      · have hnone := hidle (E.act m) ⟨hquiet m hnm, ha ▸ id⟩
        rw [hnone] at hstep
        cases hstep
      · have he := hquiet m hnm
        rw [ha] at he
        rw [hc]
        cases e with
        | tick k => exact ⟨ih.anomalies, ih.requests, ih.handlers, ih.consumers⟩
        | changeCluster cl => exact ⟨ih.anomalies, ih.requests, ih.handlers, ih.consumers⟩
        | _ => exact absurd trivial he

/--
**Left alone, the system comes to rest.** From any state that can be reached, however calls
fail and whatever the clock and the cluster do: once nothing arrives any more, and the
threads and consumers that can go on now and then do, all messages are taken off the queues,
all handlers end and all consumers are free, for good.
-/
theorem comes_to_rest {E : (system (K := K) cfg).Execution} {n : ℕ}
    (h : (system cfg).Run P (World.empty K) (E.config 0))
    (hquiet : ∀ k, n ≤ k → ¬ arrives (E.act k)) (hfair : (stages cfg).Fair E) :
    ∃ m, ∀ k, m ≤ k → AtRest (E.config k) := by
  have hrun := E.run (h.mono fun _ _ _ => trivial)
  obtain ⟨m, hnm, hidle, -⟩ :=
    Stages.idles (T := stages cfg) (fun k => descends (hrun k)) hquiet hfair
  exact ⟨m, fun k hk => (atRest_of_idle (hrun m) hidle).stays
    (fun j hj => hquiet j (hnm.trans hj)) hk⟩

end

namespace Scenario

/-- The executor takes the approved request, and handles it. -/
def worksOff : List (SysAct ℚ) := [.start (.remediation 0)] ++ calls 12 9

def rested (c : SysConfig ℚ) : Bool :=
  c.world.anomalyQueue.isEmpty && c.world.remediationQueue.isEmpty
    && c.threads.all (fun t => t.prog.isDone)
    && [.behaviourTraffic, .behaviourCost, .decisionLifecycle, .decisionSecurity,
      .decisionAnomalies, .executorActions].all fun consumer => c.world.busy consumer = none

theorem atRest_of_rested {c : SysConfig ℚ} (h : rested c = true) : AtRest c := by
  simp only [rested, Bool.and_eq_true, List.isEmpty_iff, List.all_eq_true,
    decide_eq_true_eq] at h
  obtain ⟨⟨⟨ha, hr⟩, ht⟩, hb⟩ := h
  exact ⟨ha, hr, ht, fun consumer => hb consumer (by cases consumer <;> decide)⟩

end Scenario

open Scenario in
/-- The approved request is worked off, and then only time goes by. -/
theorem comes_to_rest_executed :
    ∃ E : (system (K := ℚ) settings).Execution, (E.config 0).world.remediationQueue ≠ []
      ∧ ∃ m, ∀ k, m ≤ k → AtRest (E.config k) := by
  obtain ⟨c, hrun, hcheck⟩ := System.exists_run (S := system settings) (w := World.empty ℚ)
    (p := fun _ _ => true) (l := approved)
    (q := fun c => !c.world.remediationQueue.isEmpty
      && ((system settings).steps (fun _ _ => true) c worksOff).any rested) (by decide +kernel)
  simp only [Bool.and_eq_true, Bool.not_eq_true', List.isEmpty_eq_false_iff] at hcheck
  obtain ⟨hqueue, hany⟩ := hcheck
  obtain ⟨c', hsteps, hrest⟩ := (Option.any_eq_true _ _).mp hany
  obtain ⟨E, rfl, hact, hlast⟩ := System.Execution.exists_of_steps hsteps (.tick 1)
  have hquiet : ∀ k, 0 ≤ k → ¬ arrives (E.act k) := by
    intro k _
    rw [hact, List.getD_eq_getElem?_getD]
    cases hk : worksOff[k]? with
    | none => exact id
    | some a =>
        have hall : ∀ a ∈ worksOff, a = .start (.remediation 0) ∨ a = .step 12 .ok := by
          intro a ha
          rcases List.mem_append.mp ha with ha | ha
          · exact Or.inl (List.mem_singleton.mp ha)
          · exact Or.inr (List.eq_of_mem_replicate ha)
        rcases hall a (List.mem_of_getElem? hk) with rfl | rfl <;> exact id
  have hrested : AtRest (E.config worksOff.length) := hlast ▸ atRest_of_rested hrest
  have hfair : (stages settings).Fair E := fun n =>
    ⟨max n worksOff.length, le_max_left _ _,
      Or.inr (idle_of_atRest (hrested.stays (fun k _ => hquiet k (Nat.zero_le k))
        (le_max_right _ _)))⟩
  exact ⟨E, hqueue, comes_to_rest hrun hquiet hfair⟩

end HyperTrace.Proof
