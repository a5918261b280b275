import HyperTrace.Effect.Prog
import Mathlib.Logic.Function.Basic

/-!
# Two consumers over one state

A consumer takes one message after the other and handles each by a program. Two of
them work on one state at the same time, and any schedule may say whose call is next.
In each handler one call may be marked: there the message is said to take effect. If no
call of the one gets in the way of a call of the other, two marked calls excepted,
the outcome is that of handling the messages one by one, in the order of their marks.

The proof does not reorder schedules. It keeps a state in view, the one reached by
finishing every handler that is past its mark. From the serial state the same one is
reached by the calls of those handlers that are not there yet. A call of one consumer
can be moved past all of these, whichever side it is on.
-/

namespace Effect

variable {Op : Type} {Res : Op → Type} {ε σ α μ : Type}

/-- What a call answers, and what it leaves behind. -/
abbrev Exec (Op : Type) (Res : Op → Type) (ε σ : Type) := σ → (o : Op) → Except ε (Res o) × σ

/-! ## Transcripts that are moved past each other -/

/-- The calls, newest first, were answered like this on the way from one state to the other. -/
inductive Replays (exec : Exec Op Res ε σ) : List (Call Op Res ε) → σ → σ → Prop where
  | nil (w : σ) : Replays exec [] w w
  | cons {h : List (Call Op Res ε)} {w v v' : σ} {o : Op} {r : Except ε (Res o)} :
      Replays exec h w v → exec v o = (r, v') → Replays exec (⟨o, r⟩ :: h) w v'

/-- It makes no difference which of the two calls comes first. -/
def Commutes (exec exec' : Exec Op Res ε σ) (o o' : Op) : Prop :=
  ∀ w, (exec (exec' w o').2 o).1 = (exec w o).1 ∧ (exec' (exec w o).2 o').1 = (exec' w o').1
    ∧ (exec (exec' w o').2 o).2 = (exec' (exec w o).2 o').2

theorem Commutes.symm {exec exec' : Exec Op Res ε σ} {o o' : Op} (h : Commutes exec exec' o o') :
    Commutes exec' exec o' o := by
  intro w
  obtain ⟨h₁, h₂, h₃⟩ := h w
  exact ⟨h₂, h₁, h₃.symm⟩

section Replays

variable {exec exec' : Exec Op Res ε σ} {h g : List (Call Op Res ε)} {w u v : σ}

/-- The first call of a transcript, and the rest of it. -/
theorem Replays.first {o : Op} {r : Except ε (Res o)} (hr : Replays exec (h ++ [⟨o, r⟩]) w v) :
    (exec w o).1 = r ∧ Replays exec h (exec w o).2 v := by
  induction h generalizing v with
  | nil =>
      cases hr with
      | cons hr hx =>
          cases hr
          rw [hx]
          exact ⟨rfl, .nil _⟩
  | cons c h ih =>
      cases hr with
      | cons hr hx =>
          obtain ⟨hans, hrest⟩ := ih hr
          exact ⟨hans, .cons hrest hx⟩

theorem Replays.trans (hg : Replays exec g w v) (hh : Replays exec h v u) :
    Replays exec (h ++ g) w u := by
  induction hh with
  | nil => exact hg
  | cons _ hx ih => exact .cons (ih hg) hx

/-- One call is moved past a transcript. -/
theorem Replays.past {o : Op} (hr : Replays exec h w u)
    (hc : ∀ c ∈ h, Commutes exec exec' c.op o) :
    (exec' u o).1 = (exec' w o).1 ∧ Replays exec h (exec' w o).2 (exec' u o).2 := by
  induction hr with
  | nil => exact ⟨rfl, .nil _⟩
  | @cons h w v v' o₁ r _ hx ih =>
      obtain ⟨hans, hrep⟩ := ih fun c hc' => hc c (List.mem_cons_of_mem _ hc')
      obtain ⟨h₁, h₂, h₃⟩ := hc _ (List.mem_cons_self ..) v
      rw [hx] at h₁ h₂ h₃
      exact ⟨h₂.trans hans, .cons hrep (Prod.ext h₁ h₃)⟩

/-- Two transcripts one after the other may change places. -/
theorem Replays.swap (hr : Replays exec h w v) (hg : Replays exec' g v u)
    (hc : ∀ c ∈ h, ∀ c' ∈ g, Commutes exec exec' c.op c'.op) :
    ∃ x, Replays exec' g w x ∧ Replays exec h x u := by
  induction hg with
  | nil => exact ⟨w, .nil _, hr⟩
  | @cons g v y y' o r _ hx ih =>
      obtain ⟨x, hgx, hhx⟩ := ih hr fun c hc₁ c' hc' => hc c hc₁ c' (List.mem_cons_of_mem _ hc')
      obtain ⟨hans, hpast⟩ := hhx.past fun c hc₁ => hc c hc₁ _ (List.mem_cons_self ..)
      rw [hx] at hans hpast
      exact ⟨(exec' x o).2, .cons hgx (Prod.ext hans.symm rfl), hpast⟩

/-- Two transcripts that begin at one state can both be completed. -/
theorem Replays.diamond (hr : Replays exec h w v) (hg : Replays exec' g w u)
    (hc : ∀ c ∈ h, ∀ c' ∈ g, Commutes exec exec' c.op c'.op) :
    ∃ x, Replays exec' g v x ∧ Replays exec h u x := by
  induction hg with
  | nil => exact ⟨v, .nil _, hr⟩
  | @cons g w y y' o r _ hx ih =>
      obtain ⟨x, hgx, hhx⟩ := ih hr fun c hc₁ c' hc' => hc c hc₁ c' (List.mem_cons_of_mem _ hc')
      obtain ⟨hans, hpast⟩ := hhx.past fun c hc₁ => hc c hc₁ _ (List.mem_cons_self ..)
      rw [hx] at hans hpast
      exact ⟨(exec' x o).2, .cons hgx (Prod.ext hans rfl), hpast⟩

/-! ### Two states with a common future -/

/--
What is ahead of the one state, and what the other is behind, lead to the same state.
The calls of two parties, those of the first before those of the second.
-/
def Meet (exec exec' : Exec Op Res ε σ) (b b' f f' : List (Call Op Res ε)) (w v : σ) : Prop :=
  ∃ u, (∃ x, Replays exec f w x ∧ Replays exec' f' x u)
    ∧ ∃ x, Replays exec b v x ∧ Replays exec' b' x u

section Meet

variable {b b' f f' : List (Call Op Res ε)} {o : Op}

theorem Meet.symm (hm : Meet exec exec' b b' f f' w v)
    (hb : ∀ c ∈ b, ∀ c' ∈ b', Commutes exec exec' c.op c'.op)
    (hf : ∀ c ∈ f, ∀ c' ∈ f', Commutes exec exec' c.op c'.op) :
    Meet exec' exec b' b f' f w v := by
  obtain ⟨u, ⟨x, hfx, hfu⟩, y, hby, hbu⟩ := hm
  exact ⟨u, hfx.swap hfu hf, hby.swap hbu hb⟩

/-- A call is made that is not to count yet. -/
theorem Meet.behind (hm : Meet exec exec' b b' [] f' w v)
    (hb : ∀ c ∈ b, ∀ c' ∈ b', Commutes exec exec' c.op c'.op)
    (hob : ∀ c' ∈ b', Commutes exec exec' o c'.op)
    (hof : ∀ c' ∈ f', Commutes exec exec' o c'.op) :
    Meet exec exec' (⟨o, (exec w o).1⟩ :: b) b' [] f' (exec w o).2 v := by
  obtain ⟨u, ⟨x, hfx, hfu⟩, y, hby, hbu⟩ := hm
  cases hfx
  obtain ⟨hans, hpast⟩ := hfu.past fun c hc => (hof c hc).symm
  obtain ⟨z, hbz, hzu⟩ := hby.swap hbu hb
  have hlast : Replays exec (⟨o, (exec w o).1⟩ :: b) z (exec u o).2 :=
    .cons hzu (Prod.ext hans rfl)
  refine ⟨_, ⟨_, .nil _, hpast⟩, hbz.swap hlast fun c' hc' c hc => ?_⟩
  rcases List.mem_cons.mp hc with rfl | hc
  · exact (hob c' hc').symm
  · exact (hb c hc c' hc').symm

/-- The call is made at which everything counts, of this party, that it is to do. -/
theorem Meet.mark (hm : Meet exec exec' b b' [] f' w v)
    (hob : ∀ c' ∈ b', Commutes exec exec' o c'.op)
    (hof : ∀ c' ∈ f', Commutes exec exec' o c'.op) :
    ∃ x, Replays exec (⟨o, (exec w o).1⟩ :: b) v x ∧ ∀ g y, Replays exec g x y →
      (∀ c ∈ g, ∀ c' ∈ b', Commutes exec exec' c.op c'.op) →
      (∀ c ∈ g, ∀ c' ∈ f', Commutes exec exec' c.op c'.op) →
      Meet exec exec' [] b' g f' (exec w o).2 y := by
  obtain ⟨u, ⟨x, hfx, hfu⟩, y, hby, hbu⟩ := hm
  cases hfx
  obtain ⟨hans, hpast⟩ := hfu.past fun c hc => (hof c hc).symm
  obtain ⟨hans', hpast'⟩ := hbu.past fun c hc => (hob c hc).symm
  refine ⟨(exec y o).2, .cons hby (Prod.ext (hans'.symm.trans hans) rfl), ?_⟩
  intro g z hg hgb hgf
  obtain ⟨u', hgu, hbz⟩ := hpast'.diamond hg fun c' hc' c hc => (hgb c hc c' hc').symm
  exact ⟨u', hpast.swap hgu fun c' hc' c hc => (hgf c hc c' hc').symm, _, .nil _, hbz⟩

/-- A call is made that has counted already. -/
theorem Meet.ahead {r : Except ε (Res o)} (hm : Meet exec exec' b b' (f ++ [⟨o, r⟩]) f' w v) :
    (exec w o).1 = r ∧ Meet exec exec' b b' f f' (exec w o).2 v := by
  obtain ⟨u, ⟨x, hfx, hfu⟩, hb⟩ := hm
  obtain ⟨hans, hrest⟩ := hfx.first
  exact ⟨hans, u, ⟨x, hrest, hfu⟩, hb⟩

end Meet

end Replays

/-! ## Programs and their transcripts -/

/-- Answered like this, the program has come to its rest. -/
inductive Prog.Follows (p : Prog Op Res ε α) : List (Call Op Res ε) → Prog Op Res ε α → Prop where
  | nil : p.Follows [] p
  | cons {h : List (Call Op Res ε)} {o : Op} {k : Except ε (Res o) → Prog Op Res ε α}
      {r : Except ε (Res o)} : p.Follows h (.op o k) → p.Follows (⟨o, r⟩ :: h) (k r)

/-- The program is run with nobody else touching the state. -/
def Prog.alone (exec : Exec Op Res ε σ) (p : Prog Op Res ε α) (w : σ) : Except ε α × σ :=
  p.run (fun w o (_ : Unit) => exec w o) (fun _ => ()) w

section Follows

variable {exec : Exec Op Res ε σ} {h g : List (Call Op Res ε)} {w u : σ}
variable {p q q' : Prog Op Res ε α}

theorem Prog.Follows.trans (hg : p.Follows g q) (hh : q.Follows h q') :
    p.Follows (h ++ g) q' := by
  induction hh with
  | nil => exact hg
  | cons _ ih => exact .cons ih

/-- What a program has done alone does not change its outcome. -/
theorem Prog.Follows.alone_eq (hf : p.Follows h q) (hr : Replays exec h w u) :
    p.alone exec w = q.alone exec u := by
  induction hf generalizing u with
  | nil =>
      cases hr
      rfl
  | cons _ ih =>
      cases hr with
      | cons hr hx =>
          rw [ih hr, Prog.alone, Prog.run_op, hx]
          rfl

/-- Alone, a program comes to an end. -/
theorem Prog.exists_end (exec : Exec Op Res ε σ) (p : Prog Op Res ε α) (w : σ) :
    ∃ h q, p.Follows h q ∧ q.isDone = true ∧ Replays exec h w (p.alone exec w).2 := by
  induction p generalizing w with
  | ret a => exact ⟨[], _, .nil, rfl, .nil _⟩
  | raise e => exact ⟨[], _, .nil, rfl, .nil _⟩
  | op o k ih =>
      obtain ⟨h, q, hf, hd, hr⟩ := ih (exec w o).1 (exec w o).2
      exact ⟨h ++ [⟨o, (exec w o).1⟩], q, Prog.Follows.trans (.cons .nil) hf, hd,
        Replays.trans (.cons (.nil w) rfl) hr⟩

/-- Before its first call a program has done nothing, after it the rest depends on the answer. -/
theorem Prog.Follows.first {o : Op} {k : Except ε (Res o) → Prog Op Res ε α}
    (hf : (Prog.op o k).Follows h q) :
    (h = [] ∧ q = .op o k) ∨ ∃ r g, h = g ++ [⟨o, r⟩] ∧ (k r).Follows g q := by
  induction hf with
  | nil => exact Or.inl ⟨rfl, rfl⟩
  | @cons h o' k' r hf ih =>
      obtain ⟨hh, hq⟩ | ⟨r', g, hh, hg⟩ := ih
      · cases hq
        rw [hh]
        exact Or.inr ⟨r, [], rfl, .nil⟩
      · rw [hh]
        exact Or.inr ⟨r', ⟨o', r⟩ :: g, rfl, .cons hg⟩

/-- A program at its end makes no more calls. -/
theorem Prog.Follows.of_isDone (hf : p.Follows h q) (hd : p.isDone = true) : h = [] := by
  induction hf with
  | nil => rfl
  | cons hf ih =>
      rw [ih] at hf
      cases hf
      cases hd

/-- What a program has called it was allowed to call, and its rest keeps the discipline. -/
theorem Prog.Obeys.follows {D : Discipline Op Res ε}
    {Q : List (Call Op Res ε) → Except ε α → Prop} {t : List (Call Op Res ε)}
    (hgives : ∀ t w o, D.gives t o (exec w o).1) (hp : p.Obeys D Q t) (hf : p.Follows h q)
    (hr : Replays exec h w u) :
    q.Obeys D Q (h ++ t) ∧ ∀ c ∈ h, ∃ t', t ⊆ t' ∧ D.may t' c.op := by
  induction hf generalizing u with
  | nil => exact ⟨hp, fun c hc => absurd hc (List.not_mem_nil)⟩
  | @cons h o k r _ ih =>
      cases hr with
      | @cons _ _ v _ _ _ hr hx =>
          obtain ⟨⟨hmay, hrest⟩, hcalls⟩ := ih hr
          have hans := hgives (h ++ t) v o
          rw [hx] at hans
          refine ⟨hrest r hans, fun c hc => ?_⟩
          rcases List.mem_cons.mp hc with rfl | hc
          · exact ⟨h ++ t, List.subset_append_right _ _, hmay⟩
          · exact hcalls c hc

/-- A program that only calls what keeps a part of the state keeps it. -/
theorem Prog.Obeys.keeps {β : Type} {D : Discipline Op Res ε}
    {Q : List (Call Op Res ε) → Except ε α → Prop} {t : List (Call Op Res ε)} {G : σ → β}
    (hp : p.Obeys D Q t) (hgives : ∀ t w o, D.gives t o (exec w o).1)
    (hkeep : ∀ t o w, D.may t o → G (exec w o).2 = G w) (w : σ) :
    G (p.alone exec w).2 = G w := by
  induction p generalizing t w with
  | ret a => rfl
  | raise e => rfl
  | op o k ih => exact (ih _ (hp.2 _ (hgives _ _ _)) _).trans (hkeep _ _ _ hp.1)

end Follows

/-! ## The two consumers -/

/-- Whose a message is, how it is handled, and what the calls of either side do. -/
structure Consumers (Op : Type) (Res : Op → Type) (ε σ μ : Type) where
  side : μ → Bool
  handler : μ → Prog Op Res ε Unit
  exec : Bool → Exec Op Res ε σ
  /-- At this call a message takes effect. -/
  marks : Op → Bool

/-- A message in work: whether it has taken effect, and what is left to do. -/
structure Task (Op : Type) (Res : Op → Type) (ε μ : Type) where
  message : μ
  effective : Bool
  rest : Prog Op Res ε Unit

structure Worker (Op : Type) (Res : Op → Type) (ε μ : Type) where
  waiting : List μ
  current : Option (Task Op Res ε μ)

/-- The messages that have not taken effect. -/
def Worker.pending (k : Worker Op Res ε μ) : List μ :=
  match k.current with
  | some ⟨m, false, _⟩ => m :: k.waiting
  | _ => k.waiting

namespace Consumers

structure State (Op : Type) (Res : Op → Type) (ε σ μ : Type) where
  shared : σ
  worker : Bool → Worker Op Res ε μ
  /-- The messages, in the order in which they took effect. -/
  log : List μ

/-- Both consumers have handled everything. -/
def State.Finished (c : State Op Res ε σ μ) : Prop :=
  ∀ s, (c.worker s).waiting = [] ∧ (c.worker s).current = none

variable (C : Consumers Op Res ε σ μ)

def initial (w : σ) (ms : List μ) : State Op Res ε σ μ where
  shared := w
  worker s := ⟨ms.filter fun m => C.side m = s, none⟩
  log := []

/--
One side goes on: it takes its next message, makes the next call, or is done with a
message. A message without a marked call takes effect there.
-/
def step (c : State Op Res ε σ μ) (s : Bool) : State Op Res ε σ μ :=
  match (c.worker s).current with
  | some ⟨m, effective, .op o k⟩ =>
      { shared := (C.exec s c.shared o).2
        worker := Function.update c.worker s ⟨(c.worker s).waiting,
          some ⟨m, effective || C.marks o, k (C.exec s c.shared o).1⟩⟩
        log := if C.marks o then c.log ++ [m] else c.log }
  | some ⟨m, effective, _⟩ =>
      { c with
        worker := Function.update c.worker s ⟨(c.worker s).waiting, none⟩
        log := if effective then c.log else c.log ++ [m] }
  | none =>
      match (c.worker s).waiting with
      | [] => c
      | m :: ms =>
          { c with worker := Function.update c.worker s ⟨ms, some ⟨m, false, C.handler m⟩⟩ }

/-- A schedule says whose turn it is. -/
def run (c : State Op Res ε σ μ) (schedule : List Bool) : State Op Res ε σ μ :=
  schedule.foldl C.step c

/-- The messages are handled one by one. -/
def serial (ms : List μ) (w : σ) : σ :=
  ms.foldl (fun w m => ((C.handler m).alone (C.exec (C.side m)) w).2) w

/-! ### Every run can be finished -/

section Finished

variable {C} {s : Bool}

/-- A message in work can be finished, the other side waiting. -/
theorem exists_idle {p : Prog Op Res ε Unit} {c : State Op Res ε σ μ} {ms : List μ} {m : μ}
    {effective : Bool} (h : c.worker s = ⟨ms, some ⟨m, effective, p⟩⟩) :
    ∃ schedule, (C.run c schedule).worker = Function.update c.worker s ⟨ms, none⟩ := by
  induction p generalizing c effective with
  | ret a =>
      refine ⟨[s], ?_⟩
      rw [run, List.foldl_cons, List.foldl_nil, step, h]
  | raise e =>
      refine ⟨[s], ?_⟩
      rw [run, List.foldl_cons, List.foldl_nil, step, h]
  | op o k ih =>
      have hnext : (C.step c s).worker = Function.update c.worker s
          ⟨ms, some ⟨m, effective || C.marks o, k (C.exec s c.shared o).1⟩⟩ := by
        rw [step, h]
      obtain ⟨schedule, hrun⟩ := ih _ (c := C.step c s) (by rw [hnext, Function.update_self])
      refine ⟨s :: schedule, hrun.trans ?_⟩
      rw [hnext, Function.update_idem]

theorem exists_drained {ms : List μ} {c : State Op Res ε σ μ} (h : c.worker s = ⟨ms, none⟩) :
    ∃ schedule, (C.run c schedule).worker = Function.update c.worker s ⟨[], none⟩ := by
  induction ms generalizing c with
  | nil =>
      refine ⟨[], ?_⟩
      rw [← h, Function.update_eq_self]
      rfl
  | cons m ms ih =>
      have hnext : (C.step c s).worker
          = Function.update c.worker s ⟨ms, some ⟨m, false, C.handler m⟩⟩ := by
        rw [step, h]
      obtain ⟨first, hfirst⟩ := exists_idle (C := C) (c := C.step c s) (s := s)
        (by rw [hnext, Function.update_self])
      obtain ⟨rest, hrest⟩ := ih (c := C.run (C.step c s) first)
        (by rw [hfirst, Function.update_self])
      refine ⟨s :: (first ++ rest), ?_⟩
      rw [run, List.foldl_cons, List.foldl_append]
      refine hrest.trans ?_
      rw [hfirst, hnext, Function.update_idem, Function.update_idem]

theorem exists_side (c : State Op Res ε σ μ) (s : Bool) :
    ∃ schedule, (C.run c schedule).worker = Function.update c.worker s ⟨[], none⟩ := by
  cases h : c.worker s with
  | mk ms current =>
      cases current with
      | none => exact exists_drained h
      | some task =>
          obtain ⟨first, hfirst⟩ := exists_idle (C := C) h
          obtain ⟨rest, hrest⟩ := exists_drained (C := C) (c := C.run c first) (s := s)
            (by rw [hfirst, Function.update_self])
          refine ⟨first ++ rest, ?_⟩
          rw [run, List.foldl_append]
          refine hrest.trans ?_
          rw [hfirst, Function.update_idem]

/-- However far a run has come, it can be carried on until everything is handled. -/
theorem exists_finished (c : State Op Res ε σ μ) : ∃ schedule, (C.run c schedule).Finished := by
  obtain ⟨first, hfirst⟩ := exists_side (C := C) c true
  obtain ⟨rest, hrest⟩ := exists_side (C := C) (C.run c first) false
  refine ⟨first ++ rest, ?_⟩
  rw [run, List.foldl_append]
  intro s
  have hworker := congrFun hrest s
  rw [hfirst] at hworker
  cases s with
  | false => exact ⟨congrArg Worker.waiting hworker, congrArg Worker.current hworker⟩
  | true => exact ⟨congrArg Worker.waiting hworker, congrArg Worker.current hworker⟩

end Finished

/-- Everything one turn can do. -/
inductive Turn (c : State Op Res ε σ μ) (s : Bool) : State Op Res ε σ μ → Prop where
  | idle : Turn c s c
  | take {m : μ} {ms : List μ} (h : c.worker s = ⟨m :: ms, none⟩) :
      Turn c s
        { c with worker := Function.update c.worker s ⟨ms, some ⟨m, false, C.handler m⟩⟩ }
  | call {ms : List μ} {m : μ} {effective : Bool} {o : Op}
      {k : Except ε (Res o) → Prog Op Res ε Unit}
      (h : c.worker s = ⟨ms, some ⟨m, effective, .op o k⟩⟩) :
      Turn c s
        { shared := (C.exec s c.shared o).2
          worker := Function.update c.worker s
            ⟨ms, some ⟨m, effective || C.marks o, k (C.exec s c.shared o).1⟩⟩
          log := if C.marks o then c.log ++ [m] else c.log }
  | finish {ms : List μ} {m : μ} {effective : Bool} {rest : Prog Op Res ε Unit}
      (h : c.worker s = ⟨ms, some ⟨m, effective, rest⟩⟩) (hd : rest.isDone = true) :
      Turn c s
        { c with
          worker := Function.update c.worker s ⟨ms, none⟩
          log := if effective then c.log else c.log ++ [m] }

theorem step_turn (c : State Op Res ε σ μ) (s : Bool) : C.Turn c s (C.step c s) := by
  unfold step
  cases h : c.worker s with
  | mk ms current =>
      cases current with
      | none =>
          cases ms with
          | nil => exact .idle
          | cons m ms => exact .take h
      | some task =>
          obtain ⟨m, effective, rest⟩ := task
          cases rest with
          | ret a => exact .finish h rfl
          | raise e => exact .finish h rfl
          | op o k => exact .call h

/-! ### Sides that do not get in each other's way -/

/-- After a marked call of the same handler there is no other. -/
def once (ops : Bool → Op → Prop) (s : Bool) : Discipline Op Res ε where
  may h o := ops s o ∧ ((∃ c ∈ h, C.marks c.op = true) → C.marks o = false)
  gives _ o r := ∃ w, (C.exec s w o).1 = r

/-- The sides keep to calls of their own, and only marked ones get in each other's way. -/
structure Apart (ops : Bool → Op → Prop) : Prop where
  handler : ∀ m, (C.handler m).Obeys (C.once ops (C.side m)) (fun _ _ => True) []
  commutes : ∀ {s o o'}, ops s o → ops (!s) o' → (C.marks o = true → C.marks o' = false) →
    Commutes (C.exec s) (C.exec (!s)) o o'

/-- Unmarked calls of one side. -/
def Quiet (ops : Bool → Op → Prop) (s : Bool) (h : List (Call Op Res ε)) : Prop :=
  ∀ c ∈ h, ops s c.op ∧ C.marks c.op = false

/--
How far a side is with its message: by which calls it is behind the serial run, which
counts the message only at its mark, and by which the serial run is ahead of it.
-/
inductive Phase (ops : Bool → Op → Prop) (s : Bool) :
    Option (Task Op Res ε μ) → List (Call Op Res ε) → List (Call Op Res ε) → Prop where
  | idle : Phase ops s none [] []
  | before {m : μ} {b : List (Call Op Res ε)} {rest : Prog Op Res ε Unit} : C.side m = s →
      (C.handler m).Follows b rest → C.Quiet ops s b → Phase ops s (some ⟨m, false, rest⟩) b []
  | after {m : μ} {f : List (Call Op Res ε)} {rest q : Prog Op Res ε Unit} : rest.Follows f q →
      q.isDone = true → C.Quiet ops s f → Phase ops s (some ⟨m, true, rest⟩) [] f

/-- The two states have a common future, seen from one of the sides. -/
def Meets (s : Bool) (b f : Bool → List (Call Op Res ε)) (w v : σ) : Prop :=
  Meet (C.exec s) (C.exec (!s)) (b s) (b (!s)) (f s) (f (!s)) w v

/-- What holds in every state of a run. -/
structure View (ops : Bool → Op → Prop) (w : σ) (ms : List μ) (c : State Op Res ε σ μ)
    (b f : Bool → List (Call Op Res ε)) : Prop where
  phase : ∀ s, C.Phase ops s (c.worker s).current (b s) (f s)
  meets : ∀ s, C.Meets s b f c.shared (C.serial c.log w)
  order : ∀ s, (c.log.filter fun m => C.side m = s) ++ (c.worker s).pending
    = ms.filter fun m => C.side m = s

variable {C} {ops : Bool → Op → Prop} {s : Bool} {w v : σ} {ms : List μ}
variable {c : State Op Res ε σ μ} {b f : Bool → List (Call Op Res ε)}
variable {h h' : List (Call Op Res ε)}

theorem serial_concat (m : μ) (w : σ) :
    C.serial (ms ++ [m]) w = ((C.handler m).alone (C.exec (C.side m)) (C.serial ms w)).2 := by
  rw [serial, List.foldl_append]
  rfl

theorem once_gives (t : List (Call Op Res ε)) (w : σ) (o : Op) :
    (C.once ops s).gives t o (C.exec s w o).1 :=
  ⟨w, rfl⟩

theorem Quiet.nil : C.Quiet ops s [] := by
  intro c hc
  cases hc

theorem Quiet.cons {c : Call Op Res ε} (hc : ops s c.op ∧ C.marks c.op = false)
    (hq : C.Quiet ops s h) : C.Quiet ops s (c :: h) := by
  intro d hd
  rcases List.mem_cons.mp hd with rfl | hd
  · exact hc
  · exact hq d hd

theorem Phase.quiet {t : Option (Task Op Res ε μ)} (hp : C.Phase ops s t h h') :
    C.Quiet ops s h ∧ C.Quiet ops s h' := by
  cases hp with
  | idle => exact ⟨.nil, .nil⟩
  | before _ _ hq => exact ⟨hq, .nil⟩
  | after _ _ hq => exact ⟨.nil, hq⟩

theorem Phase.of_none (hp : C.Phase ops s none h h') : h = [] ∧ h' = [] := by
  cases hp with
  | idle => exact ⟨rfl, rfl⟩

theorem Phase.of_before {m : μ} {rest : Prog Op Res ε Unit}
    (hp : C.Phase ops s (some ⟨m, false, rest⟩) h h') :
    C.side m = s ∧ (C.handler m).Follows h rest ∧ C.Quiet ops s h ∧ h' = [] := by
  cases hp with
  | before hside hfol hq => exact ⟨hside, hfol, hq, rfl⟩

theorem Phase.of_after {m : μ} {rest : Prog Op Res ε Unit}
    (hp : C.Phase ops s (some ⟨m, true, rest⟩) h h') :
    h = [] ∧ C.Quiet ops s h' ∧ ∃ q, rest.Follows h' q ∧ q.isDone = true := by
  cases hp with
  | after hfol hd hq => exact ⟨rfl, hq, _, hfol, hd⟩

/-- A quiet transcript is passed by any call of the other side. -/
theorem Quiet.past (hA : C.Apart ops) {o : Op} (ho : ops s o) (hq : C.Quiet ops (!s) h) :
    ∀ c ∈ h, Commutes (C.exec s) (C.exec (!s)) o c.op :=
  fun c hc => hA.commutes ho (hq c hc).1 fun _ => (hq c hc).2

theorem Quiet.commutes (hA : C.Apart ops) (hq : C.Quiet ops s h) (hq' : C.Quiet ops (!s) h') :
    ∀ c ∈ h, ∀ c' ∈ h', Commutes (C.exec s) (C.exec (!s)) c.op c'.op :=
  fun c hc => hq'.past hA (hq c hc).1

/-- It does not matter from which side one looks. -/
theorem Meets.all (hA : C.Apart ops) (hm : C.Meets s b f w v) (hb : ∀ s, C.Quiet ops s (b s))
    (hf : ∀ s, C.Quiet ops s (f s)) : ∀ s', C.Meets s' b f w v := by
  have hother : C.Meets (!s) b f w v := by
    have := Meet.symm hm ((hb s).commutes hA (hb (!s))) ((hf s).commutes hA (hf (!s)))
    rw [Meets, Bool.not_not]
    exact this
  intro s'
  by_cases hs : s' = s
  · rw [hs]
    exact hm
  · rw [Bool.eq_not.mpr hs]
    exact hother

/-! ### One turn -/

/-- One side moves, and the other one stays where it is. -/
theorem View.move (hA : C.Apart ops) {k : Worker Op Res ε μ} {u : σ} {log : List μ}
    (hI : C.View ops w ms c b f) (hp : C.Phase ops s k.current h h')
    (hm : Meet (C.exec s) (C.exec (!s)) h (b (!s)) h' (f (!s)) u (C.serial log w))
    (ho : ∀ s', (log.filter fun m => C.side m = s') ++ (Function.update c.worker s k s').pending
      = ms.filter fun m => C.side m = s') :
    ∃ b f, C.View ops w ms ⟨u, Function.update c.worker s k, log⟩ b f := by
  have hphase : ∀ s', C.Phase ops s' (Function.update c.worker s k s').current
      (Function.update b s h s') (Function.update f s h' s') := by
    intro s'
    by_cases hs : s' = s
    · subst hs
      simp only [Function.update_self]
      exact hp
    · simp only [Function.update_of_ne hs]
      exact hI.phase s'
  refine ⟨Function.update b s h, Function.update f s h', hphase, ?_, ho⟩
  refine Meets.all (s := s) hA ?_ (fun s' => (hphase s').quiet.1) fun s' => (hphase s').quiet.2
  have hne : (!s) ≠ s := by simp
  rw [Meets, Function.update_self, Function.update_self, Function.update_of_ne hne,
    Function.update_of_ne hne]
  exact hm

/-- The order of a side's messages is kept where none of them takes effect. -/
theorem View.order_same {k : Worker Op Res ε μ} (hI : C.View ops w ms c b f)
    (hk : k.pending = (c.worker s).pending) (s' : Bool) :
    (c.log.filter fun m => C.side m = s') ++ (Function.update c.worker s k s').pending
      = ms.filter fun m => C.side m = s' := by
  by_cases hs : s' = s
  · subst hs
    rw [Function.update_self, hk]
    exact hI.order s'
  · rw [Function.update_of_ne hs]
    exact hI.order s'

/-- And where one does: it is the first that had not. -/
theorem View.order_next {k : Worker Op Res ε μ} {m : μ} (hI : C.View ops w ms c b f)
    (hside : C.side m = s) (hk : (c.worker s).pending = m :: k.pending) (s' : Bool) :
    ((c.log ++ [m]).filter fun m => C.side m = s') ++ (Function.update c.worker s k s').pending
      = ms.filter fun m => C.side m = s' := by
  have horder := hI.order s'
  by_cases hs : s' = s
  · subst hs
    rw [hk] at horder
    rw [Function.update_self, List.filter_append, ← horder]
    simp [hside]
  · rw [Function.update_of_ne hs, List.filter_append, ← horder]
    simp [hside, Ne.symm hs]

/-- The message that is taken is one of the side's own. -/
theorem View.side_of_waiting {m : μ} {rest : List μ} (hI : C.View ops w ms c b f)
    (hw : (c.worker s).pending = m :: rest) : C.side m = s := by
  have hmem : m ∈ ms.filter fun m => C.side m = s := by
    rw [← hI.order s, hw]
    exact List.mem_append_right _ (List.mem_cons_self ..)
  have := (List.mem_filter.mp hmem).2
  simpa using this

/-- The calls of the other side, behind and ahead, are passed by any call of this one. -/
theorem View.past (hA : C.Apart ops) (hI : C.View ops w ms c b f) {o : Op} (ho : ops s o) :
    (∀ c' ∈ b (!s), Commutes (C.exec s) (C.exec (!s)) o c'.op)
      ∧ ∀ c' ∈ f (!s), Commutes (C.exec s) (C.exec (!s)) o c'.op :=
  ⟨(hI.phase (!s)).quiet.1.past hA ho, (hI.phase (!s)).quiet.2.past hA ho⟩

section Turn

variable {m : μ} {ms' : List μ} {o : Op} {k : Except ε (Res o) → Prog Op Res ε Unit}
variable {rest : Prog Op Res ε Unit}

theorem View.take (hA : C.Apart ops) (hI : C.View ops w ms c b f)
    (h : c.worker s = ⟨m :: ms', none⟩) :
    ∃ b f, C.View ops w ms
      { c with worker := Function.update c.worker s ⟨ms', some ⟨m, false, C.handler m⟩⟩ } b f := by
  have hphase := hI.phase s
  rw [h] at hphase
  obtain ⟨hb, hf⟩ := hphase.of_none
  have hmeet := hI.meets s
  rw [Meets, hb, hf] at hmeet
  have hpend : (c.worker s).pending = m :: ms' := by rw [h]; rfl
  exact hI.move hA (.before (hI.side_of_waiting hpend) .nil .nil) hmeet
    (hI.order_same (by rw [h]; rfl))

/-- Before its mark a handler keeps its discipline. -/
theorem View.obeys (hA : C.Apart ops) (hI : C.View ops w ms c b f)
    (h : c.worker s = ⟨ms', some ⟨m, false, rest⟩⟩) :
    rest.Obeys (C.once ops s) (fun _ _ => True) (b s) := by
  have hphase := hI.phase s
  rw [h] at hphase
  obtain ⟨hside, hfol, -, -⟩ := hphase.of_before
  obtain ⟨_, _, _, hb, _⟩ := hI.meets s
  have hhandler := hA.handler m
  rw [hside] at hhandler
  have hobeys := (hhandler.follows once_gives hfol hb).1
  rw [List.append_nil] at hobeys
  exact hobeys

/-- A call before the mark. -/
theorem View.behind (hA : C.Apart ops) (hI : C.View ops w ms c b f)
    (h : c.worker s = ⟨ms', some ⟨m, false, .op o k⟩⟩) (hmark : C.marks o = false) :
    ∃ b f, C.View ops w ms
      { c with
        shared := (C.exec s c.shared o).2
        worker := Function.update c.worker s ⟨ms', some ⟨m, false, k (C.exec s c.shared o).1⟩⟩ }
      b f := by
  have hops := (hI.obeys hA h).1.1
  have hphase := hI.phase s
  rw [h] at hphase
  obtain ⟨hside, hfol, hq, hf⟩ := hphase.of_before
  have hmeet := hI.meets s
  rw [Meets, hf] at hmeet
  obtain ⟨hpb, hpf⟩ := hI.past hA hops
  exact hI.move hA (.before hside hfol.cons (.cons ⟨hops, hmark⟩ hq))
    (hmeet.behind (hq.commutes hA (hI.phase (!s)).quiet.1) hpb hpf)
    (hI.order_same (by rw [h]; rfl))

/-- The marked call: the serial run is ahead by what is left of the handler. -/
theorem View.mark (hA : C.Apart ops) (hI : C.View ops w ms c b f)
    (h : c.worker s = ⟨ms', some ⟨m, false, .op o k⟩⟩) (hmark : C.marks o = true) :
    ∃ b f, C.View ops w ms
      { shared := (C.exec s c.shared o).2
        worker := Function.update c.worker s ⟨ms', some ⟨m, true, k (C.exec s c.shared o).1⟩⟩
        log := c.log ++ [m] } b f := by
  obtain ⟨⟨hops, -⟩, hobeys⟩ := hI.obeys hA h
  have hphase := hI.phase s
  rw [h] at hphase
  obtain ⟨hside, hfol, -, hf⟩ := hphase.of_before
  have hmeet := hI.meets s
  rw [Meets, hf] at hmeet
  obtain ⟨hpb, hpf⟩ := hI.past hA hops
  obtain ⟨x, hx, hmeet'⟩ := hmeet.mark hpb hpf
  obtain ⟨g, q, hg, hd, hr⟩ := Prog.exists_end (C.exec s) (k (C.exec s c.shared o).1) x
  have hquiet : C.Quiet ops s g := by
    intro d hd'
    obtain ⟨t, ht, hmay, honce⟩ :=
      ((hobeys _ ⟨_, rfl⟩).follows once_gives hg hr).2 d hd'
    exact ⟨hmay, honce ⟨_, ht (List.mem_cons_self ..), hmark⟩⟩
  have hserial : C.serial (c.log ++ [m]) w
      = ((k (C.exec s c.shared o).1).alone (C.exec s) x).2 := by
    rw [serial_concat, hside, (Prog.Follows.cons hfol).alone_eq hx]
  refine hI.move hA (.after hg hd hquiet) ?_ (hI.order_next hside (by rw [h]; rfl))
  rw [hserial]
  exact hmeet' g _ hr (hquiet.commutes hA (hI.phase (!s)).quiet.1)
    (hquiet.commutes hA (hI.phase (!s)).quiet.2)

/-- A call after the mark, which the serial run has made already. It is not marked. -/
theorem View.ahead (hA : C.Apart ops) (hI : C.View ops w ms c b f)
    (h : c.worker s = ⟨ms', some ⟨m, true, .op o k⟩⟩) :
    C.marks o = false ∧ ∃ b f, C.View ops w ms
      { c with
        shared := (C.exec s c.shared o).2
        worker := Function.update c.worker s ⟨ms', some ⟨m, true, k (C.exec s c.shared o).1⟩⟩ }
      b f := by
  have hphase := hI.phase s
  rw [h] at hphase
  obtain ⟨hb, hq, q, hfol, hd⟩ := hphase.of_after
  have hmeet := hI.meets s
  rw [Meets, hb] at hmeet
  obtain ⟨hf, hrest⟩ | ⟨r, g, hf, hg⟩ := hfol.first
  · rw [hrest] at hd
    cases hd
  · rw [hf] at hq hmeet
    obtain ⟨hans, hmeet'⟩ := hmeet.ahead
    refine ⟨(hq ⟨o, r⟩ (by simp)).2, ?_⟩
    refine hI.move hA (.after (hans ▸ hg) hd ?_) hmeet' (hI.order_same (by rw [h]; rfl))
    exact fun d hd' => hq d (List.mem_append_left _ hd')

/-- A handler has come to its end without a marked call. -/
theorem View.finish_before (hA : C.Apart ops) (hI : C.View ops w ms c b f)
    (h : c.worker s = ⟨ms', some ⟨m, false, rest⟩⟩) (hd : rest.isDone = true) :
    ∃ b f, C.View ops w ms
      { c with
        worker := Function.update c.worker s ⟨ms', none⟩
        log := c.log ++ [m] } b f := by
  have hphase := hI.phase s
  rw [h] at hphase
  obtain ⟨hside, hfol, -, hf⟩ := hphase.of_before
  obtain ⟨u, hfu, x, hbx, hbu⟩ := hI.meets s
  rw [hf] at hfu
  have hserial : C.serial (c.log ++ [m]) w = x := by
    rw [serial_concat, hside, hfol.alone_eq hbx]
    cases rest with
    | ret a => rfl
    | raise e => rfl
    | op o k => cases hd
  refine hI.move hA .idle ?_ (hI.order_next hside (by rw [h]; rfl))
  rw [hserial]
  exact ⟨u, hfu, x, .nil _, hbu⟩

theorem View.finish_after (hA : C.Apart ops) (hI : C.View ops w ms c b f)
    (h : c.worker s = ⟨ms', some ⟨m, true, rest⟩⟩) (hd : rest.isDone = true) :
    ∃ b f, C.View ops w ms
      { c with worker := Function.update c.worker s ⟨ms', none⟩ } b f := by
  have hphase := hI.phase s
  rw [h] at hphase
  obtain ⟨hb, -, q, hfol, -⟩ := hphase.of_after
  have hmeet := hI.meets s
  rw [Meets, hb, hfol.of_isDone hd] at hmeet
  exact hI.move hA .idle hmeet (hI.order_same (by rw [h]; rfl))

end Turn

/-- **One turn keeps the view.** -/
theorem View.step (hA : C.Apart ops) (hI : C.View ops w ms c b f) (s : Bool) :
    ∃ b f, C.View ops w ms (C.step c s) b f := by
  generalize hc' : C.step c s = c'
  have hturn := C.step_turn c s
  rw [hc'] at hturn
  cases hturn with
  | idle => exact ⟨b, f, hI⟩
  | take h => exact hI.take hA h
  | @call ms' m effective o k h =>
      cases effective with
      | false =>
          cases hmark : C.marks o with
          | false => exact hI.behind hA h hmark
          | true => exact hI.mark hA h hmark
      | true =>
          obtain ⟨hmark, hview⟩ := hI.ahead hA h
          rw [hmark]
          exact hview
  | @finish ms' m effective rest h hd =>
      cases effective with
      | false => exact hI.finish_before hA h hd
      | true => exact hI.finish_after hA h hd

/-! ### A whole schedule -/

theorem View.run (hA : C.Apart ops) (schedule : List Bool) (hI : C.View ops w ms c b f) :
    ∃ b f, C.View ops w ms (C.run c schedule) b f := by
  induction schedule generalizing c b f with
  | nil => exact ⟨b, f, hI⟩
  | cons s schedule ih =>
      obtain ⟨b', f', hI'⟩ := hI.step hA s
      exact ih hI'

theorem View.initial (ops : Bool → Op → Prop) (w : σ) (ms : List μ) :
    C.View ops w ms (C.initial w ms) (fun _ => []) fun _ => [] :=
  ⟨fun _ => .idle, fun _ => ⟨w, ⟨w, .nil _, .nil _⟩, w, .nil _, .nil _⟩, fun _ => rfl⟩

/--
**Two consumers are as good as one.** When everything is handled, the state is that of
handling the messages one by one as they took effect, and no message of either side is
missing, or out of its order.
-/
theorem serializable (hA : C.Apart ops) {schedule : List Bool}
    (hdone : (C.run (C.initial w ms) schedule).Finished) :
    (C.run (C.initial w ms) schedule).shared
        = C.serial (C.run (C.initial w ms) schedule).log w
      ∧ ∀ s, ((C.run (C.initial w ms) schedule).log.filter fun m => C.side m = s)
        = ms.filter fun m => C.side m = s := by
  obtain ⟨b, f, hI⟩ := (View.initial ops w ms).run hA schedule
  generalize C.run (C.initial w ms) schedule = c at hdone hI
  have hnone : ∀ s, b s = [] ∧ f s = [] := by
    intro s
    have hphase := hI.phase s
    rw [(hdone s).2] at hphase
    generalize b s = bs at hphase ⊢
    generalize f s = fs at hphase ⊢
    cases hphase with
    | idle => exact ⟨rfl, rfl⟩
  constructor
  · obtain ⟨u, ⟨x, hx, hxu⟩, y, hy, hyu⟩ := hI.meets true
    generalize C.serial c.log w = v at hy
    rw [(hnone _).2] at hx hxu
    rw [(hnone _).1] at hy hyu
    cases hx
    cases hxu
    cases hy
    cases hyu
    rfl
  · intro s
    have horder := hI.order s
    rw [Worker.pending, (hdone s).2, (hdone s).1, List.append_nil] at horder
    exact horder

end Consumers

end Effect
