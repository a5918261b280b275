import HyperTrace.Effect.System
import Mathlib.Logic.Function.Iterate
import Mathlib.Logic.Hydra
import Mathlib.Tactic.Abel

/-!
# Systems that come to rest

What is left to do in a configuration is a bag of tasks: the programs under way and the
messages that wait in queues, each at a stage. To answer a call is to replace a program by a
part of it; to take a message is to replace it by a program of its stage; and a program sends
messages to earlier stages only. So each act replaces a task by smaller ones, and as
Hercules does in the end of the hydra, the system runs out of work unless it is given more.
-/

namespace Effect

open Relation

/-- Something to do: a message of a stage, or what is left of a program of one. -/
inductive Work (Op : Type) (Res : Op → Type) (ε ρ : Type) where
  | message (stage : ℕ)
  | program (stage : ℕ) (p : Prog Op Res ε ρ)

variable {Op : Type} {Res : Op → Type} {ε σ χ τ ρ ι κ : Type}

/-- `Smaller s t`: doing a bit of `t` may leave `s`. -/
inductive Smaller : Work Op Res ε ρ → Work Op Res ε ρ → Prop where
  | answer (l : ℕ) (o : Op) (k : Except ε (Res o) → Prog Op Res ε ρ) (r : Except ε (Res o)) :
      Smaller (.program l (k r)) (.program l (.op o k))
  | take (l : ℕ) (p : Prog Op Res ε ρ) : Smaller (.program l p) (.message l)
  | send {l l' : ℕ} (p : Prog Op Res ε ρ) : l' < l → Smaller (.message l') (.program l p)

theorem smaller_wf : WellFounded (@Smaller Op Res ε ρ) := by
  -- by the stage, and for each stage by the program
  have hstage : ∀ l, (∀ p : Prog Op Res ε ρ, Acc Smaller (.program l p))
      ∧ Acc (@Smaller Op Res ε ρ) (.message l) := by
    intro l
    induction l using Nat.strong_induction_on with
    | _ l ih =>
        have hprogram : ∀ p : Prog Op Res ε ρ, Acc Smaller (.program l p) := by
          intro p
          induction p with
          | ret a =>
              refine ⟨_, fun t ht => ?_⟩
              cases ht with
              | send _ hlt => exact (ih _ hlt).2
          | raise e =>
              refine ⟨_, fun t ht => ?_⟩
              cases ht with
              | send _ hlt => exact (ih _ hlt).2
          | op o k ihk =>
              refine ⟨_, fun t ht => ?_⟩
              cases ht with
              | answer _ _ _ r => exact ihk r
              | send _ hlt => exact (ih _ hlt).2
        refine ⟨hprogram, _, fun t ht => ?_⟩
        cases ht with
        | take _ p => exact hprogram p
  refine ⟨fun t => ?_⟩
  cases t with
  | message l => exact (hstage l).2
  | program l p => exact (hstage l).1 p

/-- The stages of a system, and which acts bring it work from outside. -/
structure Stages (S : System Op Res ε σ χ τ ρ ι κ) where
  /-- The stage of a thread, by its tag. -/
  stage : τ → ℕ
  /-- The stages of the messages that wait in queues. -/
  backlog : σ → Multiset ℕ
  /-- The messages a call may send. -/
  sends : Op → Multiset ℕ
  arrives : Act χ ι κ → Prop
  exec : ∀ w o x, ∃ ms ≤ sends o, backlog (S.exec w o x).2 = backlog w + ms
  start : ∀ {w n x w' tag p}, S.start w n x = some (w', tag, p) → ¬ arrives (.start x) →
    backlog w = {stage tag} + backlog w'
  env : ∀ w e, ¬ arrives (.env e) → backlog (S.env w e) = backlog w

/-- An act of the environment. -/
def Act.isEnv : Act χ ι κ → Prop
  | .env _ => True
  | _ => False

/-- A run without end. -/
structure System.Execution (S : System Op Res ε σ χ τ ρ ι κ) where
  config : ℕ → Config Op Res ε σ τ ρ
  act : ℕ → Act χ ι κ
  steps : ∀ n, S.step (config n) (act n) = some (config (n + 1))

namespace System.Execution

variable {S : System Op Res ε σ χ τ ρ ι κ} {w : σ}

/-- What is reached from a reachable configuration is reachable. -/
theorem run (E : S.Execution) (h : S.Run (fun _ _ => True) w (E.config 0)) (n : ℕ) :
    S.Run (fun _ _ => True) w (E.config n) := by
  induction n with
  | zero => exact h
  | succ n ih => exact ih.tail trivial (E.steps n)

/-- After a schedule that can be executed the environment may move for ever. -/
theorem exists_of_steps {ok : Config Op Res ε σ τ ρ → Act χ ι κ → Bool} {as : List (Act χ ι κ)}
    {c c' : Config Op Res ε σ τ ρ} (h : S.steps ok c as = some c') (e : κ) :
    ∃ E : S.Execution, E.config 0 = c ∧ (∀ n, E.act n = as.getD n (.env e))
      ∧ E.config as.length = c' := by
  induction as generalizing c with
  | nil =>
      obtain rfl := Option.some.inj h
      refine ⟨⟨fun n => ⟨(fun w => S.env w e)^[n] c.world, c.trace, c.threads⟩, fun _ => .env e,
        fun n => ?_⟩, rfl, fun n => rfl, rfl⟩
      rw [Function.iterate_succ_apply']
      rfl
  | cons a as ih =>
      simp only [System.steps] at h
      split at h
      · split at h
        · cases h
        · rename_i c'' hs
          obtain ⟨E, hzero, hact, hlast⟩ := ih h
          refine ⟨⟨fun n => n.casesOn c E.config, fun n => n.casesOn a E.act, fun n => ?_⟩, rfl,
            fun n => ?_, hlast⟩
          · cases n with
            | zero => exact hs.trans (congrArg some hzero.symm)
            | succ n => exact E.steps n
          · cases n with
            | zero => rfl
            | succ n => exact hact n
      · cases h

end System.Execution

namespace Stages

variable {S : System Op Res ε σ χ τ ρ ι κ} (T : Stages S)

/-- What is left to do. -/
def tasks (c : Config Op Res ε σ τ ρ) : Multiset (Work Op Res ε ρ) :=
  ↑(c.threads.map fun t => (Work.program (T.stage t.tag) t.prog : Work Op Res ε ρ))
    + (T.backlog c.world).map Work.message

/-- Every thread is about to send to earlier stages only. -/
def Descends (c : Config Op Res ε σ τ ρ) : Prop :=
  ∀ (i : ℕ) (tag : τ) (o : Op) (k : Except ε (Res o) → Prog Op Res ε ρ),
    c.threads[i]? = some ⟨tag, .op o k⟩ → ∀ l ∈ T.sends o, l < T.stage tag

/-- An act that does away with some of the work. -/
def Works (a : Act χ ι κ) : Prop := ¬ T.arrives a ∧ ¬ a.isEnv

/-- **What one act leaves to do.** -/
theorem cut {c c' : Config Op Res ε σ τ ρ} {a : Act χ ι κ} (hc : T.Descends c)
    (hs : S.step c a = some c') (ha : ¬ T.arrives a) :
    CutExpand Smaller (T.tasks c') (T.tasks c) ∨ a.isEnv ∧ T.tasks c' = T.tasks c := by
  rcases System.step_cases hs with ⟨x, w, tag, p, rfl, hst, rfl⟩ |
    ⟨i, x, tag, o, k, rfl, ht, rfl⟩ | ⟨e, rfl, rfl⟩
  · -- a message becomes a program
    left
    have hb := T.start hst ha
    refine ⟨{.program (T.stage tag) p}, .message (T.stage tag), ?_, ?_⟩
    · intro t ht
      rw [Multiset.mem_singleton.mp ht]
      exact .take _ _
    · simp only [tasks, hb, List.map_append, List.map_cons, List.map_nil, Multiset.map_add,
        Multiset.map_singleton, ← Multiset.coe_add, Multiset.coe_singleton]
      abel
  · -- a program becomes a part of it, and perhaps a message
    left
    obtain ⟨ms, hms, hb⟩ := T.exec c.world o x
    obtain ⟨hlt, hget⟩ := List.getElem?_eq_some_iff.mp ht
    have hold := (List.getElem_cons_eraseIdx_perm hlt).map fun t : Thread Op Res ε τ ρ =>
      (Work.program (T.stage t.tag) t.prog : Work Op Res ε ρ)
    have hnew := (List.set_perm_cons_eraseIdx hlt ⟨tag, k (S.exec c.world o x).1⟩).map
      fun t : Thread Op Res ε τ ρ => (Work.program (T.stage t.tag) t.prog : Work Op Res ε ρ)
    refine ⟨{.program (T.stage tag) (k (S.exec c.world o x).1)} + ms.map .message,
      .program (T.stage tag) (.op o k), ?_, ?_⟩
    · intro t ht'
      rcases Multiset.mem_add.mp ht' with hself | hsent
      · rw [Multiset.mem_singleton.mp hself]
        exact .answer _ _ _ _
      · obtain ⟨l, hl, rfl⟩ := Multiset.mem_map.mp hsent
        exact .send _ (hc i tag o k ht l (Multiset.mem_of_le hms hl))
    · rw [hget] at hold
      rw [tasks, tasks, hb, ← Multiset.coe_eq_coe.mpr hold, Multiset.coe_eq_coe.mpr hnew]
      simp only [List.map_cons, ← Multiset.cons_coe, ← Multiset.singleton_add, Multiset.map_add]
      abel
  · exact Or.inr ⟨trivial, by rw [tasks, tasks, T.env _ _ ha]⟩

/-! ## Runs without end -/

variable {T} {E : S.Execution}

/-- While nothing arrives, there is only less to do. -/
theorem tasks_descend (hdesc : ∀ n, T.Descends (E.config n)) {n m : ℕ} (hnm : n ≤ m)
    (hquiet : ∀ k, n ≤ k → ¬ T.arrives (E.act k)) :
    ReflTransGen (CutExpand Smaller) (T.tasks (E.config m)) (T.tasks (E.config n)) := by
  induction m, hnm using Nat.le_induction with
  | base => exact .refl
  | succ m hnm ih =>
      rcases T.cut (hdesc m) (E.steps m) (hquiet m hnm) with hcut | ⟨_, hsame⟩
      · exact .head hcut ih
      · rwa [hsame]

/-- **Where nothing arrives any more, in the end nothing is done any more.** -/
theorem settles (hdesc : ∀ n, T.Descends (E.config n)) {n : ℕ}
    (hquiet : ∀ k, n ≤ k → ¬ T.arrives (E.act k)) :
    ∃ m, n ≤ m ∧ ∀ k, m ≤ k → (E.act k).isEnv := by
  -- by what is left to do
  induction hbag : T.tasks (E.config n) using smaller_wf.cutExpand.transGen.induction
    generalizing n with
  | _ bag ih =>
      by_cases hall : ∀ k, n ≤ k → (E.act k).isEnv
      · exact ⟨n, le_refl n, hall⟩
      · simp only [not_forall, exists_prop] at hall
        obtain ⟨k, hnk, hk⟩ := hall
        rcases T.cut (hdesc k) (E.steps k) (hquiet k hnk) with hcut | ⟨henv, _⟩
        · have hless : TransGen (CutExpand Smaller) (T.tasks (E.config (k + 1))) bag :=
            hbag ▸ TransGen.head' hcut (tasks_descend hdesc hnk hquiet)
          obtain ⟨m, hm, hrest⟩ := ih _ hless
            (fun j hj => hquiet j ((hnk.trans (Nat.le_succ k)).trans hj)) rfl
          exact ⟨m, (hnk.trans (Nat.le_succ k)).trans hm, hrest⟩
        · exact absurd henv hk

variable (T) in
/-- There is nothing that can be done. -/
def Idle (c : Config Op Res ε σ τ ρ) : Prop := ∀ a, T.Works a → S.step c a = none

variable (T) in
/-- Something is done again and again, where something can be done. -/
def Fair (E : S.Execution) : Prop := ∀ n, ∃ k, n ≤ k ∧ (T.Works (E.act k) ∨ T.Idle (E.config k))

/-- **A system that is given no more work runs out of it.** -/
theorem idles (hdesc : ∀ n, T.Descends (E.config n)) {n : ℕ}
    (hquiet : ∀ k, n ≤ k → ¬ T.arrives (E.act k)) (hfair : T.Fair E) :
    ∃ m, n ≤ m ∧ T.Idle (E.config m) ∧ ∀ k, m ≤ k → (E.act k).isEnv := by
  obtain ⟨m, hnm, henv⟩ := settles hdesc hquiet
  obtain ⟨k, hmk, hworks | hidle⟩ := hfair m
  · exact absurd (henv k hmk) hworks.2
  · exact ⟨k, hnm.trans hmk, hidle, fun j hj => henv j (hmk.trans hj)⟩

end Stages

end Effect
