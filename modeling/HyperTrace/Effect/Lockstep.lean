import HyperTrace.Effect.System
import Mathlib.Data.List.Forall2

/-!
# Two runs in lockstep

A statement about two runs, that they cannot be told apart, or differ only in some
known way, is proved by executing both at once. A `Coupling` says which worlds,
which calls and which answers belong together; `Prog.Coupled` is the resulting
relation of programs, with a rule for each way programs are put together. If every
call takes coupled worlds to coupled worlds and is answered alike, then two
schedules that differ only in what they start keep the whole system coupled, event
by event.
-/

namespace Effect

variable {Op : Type} {Res : Op → Type} {ε σ χ τ ρ ι κ α β : Type}

/-- What belongs together in two runs. -/
structure Coupling (Op : Type) (Res : Op → Type) (ε σ τ ι : Type) where
  world : σ → σ → Prop
  tag : τ → τ → Prop
  start : ι → ι → Prop
  op : Op → Op → Prop
  res : (o o' : Op) → Except ε (Res o) → Except ε (Res o') → Prop

/-- The programs make calls that belong together, and end with `Q`. -/
inductive Prog.Coupled (C : Coupling Op Res ε σ τ ι) (Q : Except ε α → Except ε α → Prop) :
    Prog Op Res ε α → Prog Op Res ε α → Prop where
  | ret {a a' : α} (h : Q (.ok a) (.ok a')) : Coupled C Q (.ret a) (.ret a')
  | raise {e e' : ε} (h : Q (.error e) (.error e')) : Coupled C Q (.raise e) (.raise e')
  | op {o o' : Op} {k : Except ε (Res o) → Prog Op Res ε α}
      {k' : Except ε (Res o') → Prog Op Res ε α} (ho : C.op o o')
      (hk : ∀ r r', C.res o o' r r' → Coupled C Q (k r) (k' r')) :
      Coupled C Q (.op o k) (.op o' k')

namespace Prog

section Coupled

variable {C : Coupling Op Res ε σ τ ι} {Q : Except ε α → Except ε α → Prop}

/-- The rule for sequencing, through how the first programs end. -/
theorem Coupled.bind {R : Except ε β → Except ε β → Prop} {p p' : Prog Op Res ε β}
    {f f' : β → Prog Op Res ε α} (h : p.Coupled C R p')
    (hok : ∀ b b', R (.ok b) (.ok b') → (f b).Coupled C Q (f' b'))
    (herr : ∀ e e', R (.error e) (.error e') → Q (.error e) (.error e')) :
    (p >>= f).Coupled C Q (p' >>= f') := by
  induction h with
  | ret h => exact hok _ _ h
  | raise h => exact .raise (herr _ _ h)
  | op ho _ ih => exact .op ho ih

/-- The rule for a handler of exceptions. -/
theorem Coupled.tryCatch {R : Except ε α → Except ε α → Prop} {p p' : Prog Op Res ε α}
    {f f' : ε → Prog Op Res ε α} (h : p.Coupled C R p')
    (hok : ∀ a a', R (.ok a) (.ok a') → Q (.ok a) (.ok a'))
    (herr : ∀ e e', R (.error e) (.error e') → (f e).Coupled C Q (f' e')) :
    (p.tryCatch f).Coupled C Q (p'.tryCatch f') := by
  induction h with
  | ret h => exact .ret (hok _ _ h)
  | raise h => exact herr _ _ h
  | op ho _ ih => exact .op ho ih

/-- The rule for a call that something is done with; both answer, or both raise the same. -/
theorem Coupled.call {o o' : Op} {f : Res o → Prog Op Res ε α} {f' : Res o' → Prog Op Res ε α}
    (ho : C.op o o')
    (hres : ∀ r r', C.res o o' r r' → (∃ a a', r = .ok a ∧ r' = .ok a' ∧ (f a).Coupled C Q (f' a'))
      ∨ ∃ e, r = .error e ∧ r' = .error e ∧ Q (.error e) (.error e)) :
    (perform o >>= f).Coupled C Q (perform o' >>= f') := by
  refine .op ho fun r r' hr => ?_
  obtain ⟨a, a', rfl, rfl, h⟩ | ⟨e, rfl, rfl, h⟩ := hres r r' hr
  · exact h
  · exact .raise h

theorem Coupled.ite {b : Prop} [Decidable b] {p p' q q' : Prog Op Res ε α}
    (hp : b → p.Coupled C Q p') (hq : ¬ b → q.Coupled C Q q') :
    (if b then p else q).Coupled C Q (if b then p' else q') := by
  split
  · exact hp ‹_›
  · exact hq ‹_›

end Coupled

end Prog

namespace Coupling

variable (C : Coupling Op Res ε σ τ ι)

/-- The acts differ in what they start, if at all. -/
inductive Acts : Act χ ι κ → Act χ ι κ → Prop where
  | start {x x' : ι} (h : C.start x x') : Acts (.start x) (.start x')
  | step (i : Nat) (x : χ) : Acts (.step i x) (.step i x)
  | env (e : κ) : Acts (.env e) (.env e)

/-- The same thread made calls that belong together, and was answered alike. -/
structure Events (e e' : Event Op Res ε σ τ) : Prop where
  tid : e.tid = e'.tid
  tag : C.tag e.tag e'.tag
  op : C.op e.op e'.op
  res : C.res e.op e'.op e.res e'.res
  before : C.world e.before e'.before
  after : C.world e.after e'.after

structure Threads (t t' : Thread Op Res ε τ ρ) : Prop where
  tag : C.tag t.tag t'.tag
  prog : t.prog.Coupled C Eq t'.prog

structure Configs (c c' : Config Op Res ε σ τ ρ) : Prop where
  world : C.world c.world c'.world
  trace : List.Forall₂ C.Events c.trace c'.trace
  threads : List.Forall₂ C.Threads c.threads c'.threads

/-- One act keeps together what belongs together. -/
structure Sound (S : System Op Res ε σ χ τ ρ ι κ) : Prop where
  exec : ∀ {w w' o o'} (x : χ), C.world w w' → C.op o o' →
    C.world (S.exec w o x).2 (S.exec w' o' x).2 ∧ C.res o o' (S.exec w o x).1 (S.exec w' o' x).1
  start : ∀ {w w' x x'} (n : Nat), C.world w w' → C.start x x' →
    S.start w n x = none ∧ S.start w' n x' = none
      ∨ ∃ v v' tag tag' p p', S.start w n x = some (v, tag, p)
          ∧ S.start w' n x' = some (v', tag', p') ∧ C.world v v' ∧ C.tag tag tag'
          ∧ p.Coupled C Eq p'
  env : ∀ {w w'} (e : κ), C.world w w' → C.world (S.env w e) (S.env w' e)

variable {C}

/-- Positions of a coupled list hold coupled elements. -/
theorem forall₂_getElem? {R : α → β → Prop} {l : List α} {l' : List β} (h : List.Forall₂ R l l')
    {i : Nat} {a : α} (ha : l[i]? = some a) : ∃ b, l'[i]? = some b ∧ R a b := by
  induction h generalizing i with
  | nil => simp at ha
  | cons hab _ ih =>
      cases i with
      | zero =>
          simp only [List.getElem?_cons_zero, Option.some.injEq] at ha
          exact ⟨_, rfl, ha ▸ hab⟩
      | succ i => exact ih (by simpa using ha)

theorem forall₂_set {R : α → β → Prop} {l : List α} {l' : List β} (h : List.Forall₂ R l l')
    (i : Nat) {a : α} {b : β} (hab : R a b) : List.Forall₂ R (l.set i a) (l'.set i b) := by
  induction h generalizing i with
  | nil => exact .nil
  | cons hcd hl ih =>
      cases i with
      | zero => exact .cons hab hl
      | succ i => exact .cons hcd (ih i)

/-- **One act of both runs.** -/
theorem Sound.step {S : System Op Res ε σ χ τ ρ ι κ} (hS : C.Sound S)
    {c c' d : Config Op Res ε σ τ ρ} {a a' : Act χ ι κ} (hc : C.Configs c c') (ha : C.Acts a a')
    (h : S.step c a = some d) : ∃ d', S.step c' a' = some d' ∧ C.Configs d d' := by
  cases ha with
  | start hx =>
      have hlen := hc.threads.length_eq
      obtain ⟨hnone, -⟩ | ⟨v, v', tag, tag', p, p', hs, hs', hv, htag, hp⟩ :=
        hS.start c.threads.length hc.world hx
      · simp [System.step, hnone] at h
      · simp only [System.step, hs, Option.some.injEq] at h
        rw [hlen] at hs'
        refine ⟨⟨v', c'.trace, c'.threads ++ [⟨tag', p'⟩]⟩, by simp [System.step, hs'], ?_⟩
        subst h
        exact ⟨hv, hc.trace, List.rel_append hc.threads (.cons ⟨htag, hp⟩ .nil)⟩
  | step i x =>
      obtain ⟨_, _, _, _, ⟨⟩, _⟩ | ⟨j, y, tag, o, k, hact, ht, rfl⟩ | ⟨_, ⟨⟩, _⟩ :=
        System.step_cases h
      cases hact
      obtain ⟨⟨tag', p'⟩, ht', htag, hp⟩ := forall₂_getElem? hc.threads ht
      cases hp with
      | @op _ o' _ k' ho hk =>
          obtain ⟨hworld, hres⟩ := hS.exec x hc.world ho
          refine ⟨_, by simp only [System.step, ht']; rfl, ?_⟩
          exact ⟨hworld, .cons ⟨rfl, htag, ho, hres, hc.world, hworld⟩ hc.trace,
            forall₂_set hc.threads i ⟨htag, hk _ _ hres⟩⟩
  | env e =>
      obtain rfl := Option.some.inj h
      exact ⟨_, rfl, hS.env e hc.world, hc.trace, hc.threads⟩

/-- **Two schedules that differ in what they start, executed to the end.** -/
theorem Sound.steps {S : System Op Res ε σ χ τ ρ ι κ} (hS : C.Sound S)
    {c c' d : Config Op Res ε σ τ ρ} {l l' : List (Act χ ι κ)} (hc : C.Configs c c')
    (hl : List.Forall₂ C.Acts l l') (h : S.steps (fun _ _ => true) c l = some d) :
    ∃ d', S.steps (fun _ _ => true) c' l' = some d' ∧ C.Configs d d' := by
  induction hl generalizing c c' with
  | nil =>
      obtain rfl := Option.some.inj h
      exact ⟨c', rfl, hc⟩
  | @cons a a' l l' ha _ ih =>
      simp only [System.steps, ↓reduceIte] at h ⊢
      cases hs : S.step c a with
      | none => simp [hs] at h
      | some c₁ =>
          obtain ⟨c₁', hs', hc₁⟩ := hS.step hc ha hs
          simp only [hs] at h
          simp only [hs']
          exact ih hc₁ h

/-- What coupled events agree on, coupled traces agree on. -/
theorem filterMap_eq {f : Event Op Res ε σ τ → Option β} {tr tr' : List (Event Op Res ε σ τ)}
    (hf : ∀ e e', C.Events e e' → f e = f e') (h : List.Forall₂ C.Events tr tr') :
    tr.filterMap f = tr'.filterMap f := by
  induction h with
  | nil => rfl
  | @cons e e' tr tr' he _ ih => rw [List.filterMap_cons, List.filterMap_cons, hf e e' he, ih]

theorem filterMap_rel {f : Event Op Res ε σ τ → Option β} {R : β → β → Prop}
    {tr tr' : List (Event Op Res ε σ τ)} (hf : ∀ e e', C.Events e e' → Option.Rel R (f e) (f e'))
    (h : List.Forall₂ C.Events tr tr') :
    List.Forall₂ R (tr.filterMap f) (tr'.filterMap f) :=
  List.rel_filterMap hf h

end Coupling

end Effect
