import Mathlib.Order.Basic

/-!
# Programs that call an interface and may raise

A handler of a service does nothing but call things: the database, the broker,
an API server, a clock. `Prog` is that view of it, a tree whose nodes are calls
and whose branches are what each call may answer, an exception included. Nothing
here knows what a call does; that is the business of whoever executes it.

Three readings of a program are developed. `Prog.run` executes it on its own, with
nobody else touching the state, and `Prog.Ensures` says with what it ends there,
however its calls are resolved. `Prog.Obeys` says what it may call next *given
what its own calls have answered so far*, whatever the answers are; because it
speaks only about the program's own history it needs no assumption about
interference, and it composes along `bind` and `tryCatch`.
-/

namespace Effect

/-- A program over operations `Op`, answered in `Res`, raising `ε`, returning `α`. -/
inductive Prog (Op : Type) (Res : Op → Type) (ε α : Type) : Type where
  | ret (a : α)
  | raise (e : ε)
  | op (o : Op) (k : Except ε (Res o) → Prog Op Res ε α)

/-- One call and its answer. -/
structure Call (Op : Type) (Res : Op → Type) (ε : Type) where
  op : Op
  res : Except ε (Res op)

/-- The call was answered, not with an exception. -/
def Call.isOk {Op : Type} {Res : Op → Type} {ε : Type} (c : Call Op Res ε) : Bool :=
  match c.res with
  | .ok _ => true
  | .error _ => false

variable {Op : Type} {Res : Op → Type} {ε α β γ σ χ : Type}

namespace Prog

/-- Sequencing: an exception skips the rest. -/
def bind : Prog Op Res ε α → (α → Prog Op Res ε β) → Prog Op Res ε β
  | .ret a, f => f a
  | .raise e, _ => .raise e
  | .op o k, f => .op o fun r => (k r).bind f

/-- `try p except e: h e`. -/
def tryCatch : Prog Op Res ε α → (ε → Prog Op Res ε α) → Prog Op Res ε α
  | .ret a, _ => .ret a
  | .raise e, h => h e
  | .op o k, h => .op o fun r => (k r).tryCatch h

instance : Monad (Prog Op Res ε) where
  pure := .ret
  bind := .bind

instance : MonadExceptOf ε (Prog Op Res ε) where
  throw := .raise
  tryCatch := .tryCatch

/-- Call `o`: an exception it answers with is raised. -/
def perform (o : Op) : Prog Op Res ε (Res o) :=
  .op o fun
    | .ok a => .ret a
    | .error e => .raise e

@[simp] theorem pure_eq (a : α) : (pure a : Prog Op Res ε α) = .ret a := rfl

@[simp] theorem throw_eq (e : ε) : (throw e : Prog Op Res ε α) = .raise e := rfl

@[simp] theorem bind_eq (p : Prog Op Res ε α) (f : α → Prog Op Res ε β) :
    p >>= f = p.bind f := rfl

@[simp] theorem tryCatch_eq (p : Prog Op Res ε α) (h : ε → Prog Op Res ε α) :
    MonadExcept.tryCatch p h = p.tryCatch h := rfl

@[simp] theorem ret_bind (a : α) (f : α → Prog Op Res ε β) : (Prog.ret a).bind f = f a := rfl

@[simp] theorem raise_bind (e : ε) (f : α → Prog Op Res ε β) :
    (Prog.raise e : Prog Op Res ε α).bind f = .raise e := rfl

theorem bind_ret (p : Prog Op Res ε α) : p.bind .ret = p := by
  induction p with
  | ret a => rfl
  | raise e => rfl
  | op o k ih => exact congrArg (op o) (funext ih)

theorem bind_assoc (p : Prog Op Res ε α) (f : α → Prog Op Res ε β) (g : β → Prog Op Res ε γ) :
    (p.bind f).bind g = p.bind fun a => (f a).bind g := by
  induction p with
  | ret a => rfl
  | raise e => rfl
  | op o k ih => exact congrArg (op o) (funext ih)

/-- The program has come to its end. -/
def isDone : Prog Op Res ε α → Bool
  | .op _ _ => false
  | _ => true

/-! ## Running a program on its own -/

/--
Execute `p` from `s`, the `n`-th call being resolved by the environment's choice
`c n`. Returns the outcome and the final state.
-/
def run (exec : σ → (o : Op) → χ → Except ε (Res o) × σ) :
    Prog Op Res ε α → (Nat → χ) → σ → Except ε α × σ
  | .ret a, _, s => (.ok a, s)
  | .raise e, _, s => (.error e, s)
  | .op o k, c, s => (k (exec s o (c 0)).1).run exec (fun n => c (n + 1)) (exec s o (c 0)).2

section Run

variable (exec : σ → (o : Op) → χ → Except ε (Res o) × σ) (c : Nat → χ) (s : σ)

@[simp] theorem run_ret (a : α) : (Prog.ret a : Prog Op Res ε α).run exec c s = (.ok a, s) := rfl

@[simp] theorem run_raise (e : ε) :
    (Prog.raise e : Prog Op Res ε α).run exec c s = (.error e, s) := rfl

@[simp] theorem run_op (o : Op) (k : Except ε (Res o) → Prog Op Res ε α) :
    (Prog.op o k).run exec c s =
      (k (exec s o (c 0)).1).run exec (fun n => c (n + 1)) (exec s o (c 0)).2 := rfl

/-- A call that answers goes on with its answer. -/
theorem run_perform_bind_ok {o : Op} {a : Res o} (f : Res o → Prog Op Res ε β)
    (h : (exec s o (c 0)).1 = .ok a) :
    ((perform o).bind f).run exec c s = (f a).run exec (fun n => c (n + 1)) (exec s o (c 0)).2 := by
  simp only [perform, bind, run_op, h]

/-- Under one fixed choice, sequencing runs the second program where the first one stopped. -/
theorem run_bind_const (x : χ) (p : Prog Op Res ε α) (f : α → Prog Op Res ε β) :
    (p.bind f).run exec (fun _ => x) s =
      match p.run exec (fun _ => x) s with
      | (.ok a, s') => (f a).run exec (fun _ => x) s'
      | (.error e, s') => (.error e, s') := by
  induction p generalizing s with
  | ret a => rfl
  | raise e => rfl
  | op o k ih => simp only [bind, run_op, ih]

/-- A program that ends well never comes to its handler. -/
theorem run_tryCatch_ok {p : Prog Op Res ε α} {a : α} {s' : σ} (h : p.run exec c s = (.ok a, s'))
    (f : ε → Prog Op Res ε α) : (p.tryCatch f).run exec c s = (.ok a, s') := by
  induction p generalizing c s with
  | ret b => exact h
  | raise e => cases h
  | op o k ih => exact ih _ _ _ h

end Run

/-! ## Whatever the environment chooses -/

/-- However the calls are resolved, `p` ends from `s` with `Q`. -/
def Ensures (exec : σ → (o : Op) → χ → Except ε (Res o) × σ) (Q : Except ε α → σ → Prop) :
    Prog Op Res ε α → σ → Prop
  | .ret a, s => Q (.ok a) s
  | .raise e, s => Q (.error e) s
  | .op o k, s => ∀ x, (k (exec s o x).1).Ensures exec Q (exec s o x).2

section Ensures

variable {exec : σ → (o : Op) → χ → Except ε (Res o) × σ} {s : σ}

/-- What is ensured holds of every run. -/
theorem Ensures.run {Q : Except ε α → σ → Prop} {p : Prog Op Res ε α} (h : p.Ensures exec Q s)
    (c : Nat → χ) : Q (p.run exec c s).1 (p.run exec c s).2 := by
  induction p generalizing s c with
  | ret a => exact h
  | raise e => exact h
  | op o k ih => exact ih _ (h (c 0)) _

theorem Ensures.mono {Q Q' : Except ε α → σ → Prop} {p : Prog Op Res ε α} (h : p.Ensures exec Q s)
    (hQ : ∀ r s', Q r s' → Q' r s') : p.Ensures exec Q' s := by
  induction p generalizing s with
  | ret a => exact hQ _ _ h
  | raise e => exact hQ _ _ h
  | op o k ih => exact fun x => ih _ (h x)

/-- The rule for sequencing, through what the first program ensures. -/
theorem Ensures.bind {Q : Except ε β → σ → Prop} {R : Except ε α → σ → Prop}
    {p : Prog Op Res ε α} {f : α → Prog Op Res ε β} (h : p.Ensures exec R s)
    (hok : ∀ a s', R (.ok a) s' → (f a).Ensures exec Q s')
    (herr : ∀ e s', R (.error e) s' → Q (.error e) s') : (p >>= f).Ensures exec Q s := by
  induction p generalizing s with
  | ret a => exact hok _ _ h
  | raise e => exact herr _ _ h
  | op o k ih => exact fun x => ih _ (h x)

/-- The rule for a handler of exceptions. -/
theorem Ensures.tryCatch {Q R : Except ε α → σ → Prop} {p : Prog Op Res ε α}
    {f : ε → Prog Op Res ε α} (h : p.Ensures exec R s)
    (hok : ∀ a s', R (.ok a) s' → Q (.ok a) s')
    (herr : ∀ e s', R (.error e) s' → (f e).Ensures exec Q s') :
    (p.tryCatch f).Ensures exec Q s := by
  induction p generalizing s with
  | ret a => exact hok _ _ h
  | raise e => exact herr _ _ h
  | op o k ih => exact fun x => ih _ (h x)

/-- The rule for a call that something is done with. -/
theorem Ensures.call {o : Op} {f : Res o → Prog Op Res ε β} {Q : Except ε β → σ → Prop}
    (hok : ∀ x a, (exec s o x).1 = .ok a → (f a).Ensures exec Q (exec s o x).2)
    (herr : ∀ x e, (exec s o x).1 = .error e → Q (.error e) (exec s o x).2) :
    (perform o >>= f).Ensures exec Q s := by
  intro x
  have hok' := hok x
  have herr' := herr x
  generalize (exec s o x).1 = r at hok' herr'
  cases r with
  | ok a => exact hok' a rfl
  | error e => exact herr' e rfl

theorem Ensures.ite {b : Prop} [Decidable b] {Q : Except ε α → σ → Prop} {p q : Prog Op Res ε α}
    (hp : b → p.Ensures exec Q s) (hq : ¬ b → q.Ensures exec Q s) :
    (if b then p else q).Ensures exec Q s := by
  split
  · exact hp ‹_›
  · exact hq ‹_›

end Ensures

end Prog

/-! ## What a program may call, given its own history -/

/-- What a program may call after a history, and what it may be answered. -/
structure Discipline (Op : Type) (Res : Op → Type) (ε : Type) where
  /-- After the history `h` (newest call first) the operation may be called. -/
  may : List (Call Op Res ε) → Op → Prop
  /-- After the history `h` the operation may be answered this way. -/
  gives : List (Call Op Res ε) → (o : Op) → Except ε (Res o) → Prop

namespace Prog

/--
Started after the history `h`, the program only calls what the discipline lets it
call and ends with `Q`, provided every call is answered as the discipline says.
-/
def Obeys (D : Discipline Op Res ε) (Q : List (Call Op Res ε) → Except ε α → Prop) :
    List (Call Op Res ε) → Prog Op Res ε α → Prop
  | h, .ret a => Q h (.ok a)
  | h, .raise e => Q h (.error e)
  | h, .op o k => D.may h o ∧ ∀ r, D.gives h o r → (k r).Obeys D Q (⟨o, r⟩ :: h)

section Obeys

variable {D : Discipline Op Res ε} {Q Q' : List (Call Op Res ε) → Except ε α → Prop}
variable {h : List (Call Op Res ε)}

@[simp] theorem obeys_ret {a : α} : (Prog.ret a).Obeys D Q h ↔ Q h (.ok a) := Iff.rfl

@[simp] theorem obeys_raise {e : ε} : (Prog.raise e).Obeys D Q h ↔ Q h (.error e) := Iff.rfl

@[simp] theorem obeys_op {o : Op} {k : Except ε (Res o) → Prog Op Res ε α} :
    (Prog.op o k).Obeys D Q h ↔
      D.may h o ∧ ∀ r, D.gives h o r → (k r).Obeys D Q (⟨o, r⟩ :: h) := Iff.rfl

/-- A weaker conclusion, which may use that the history is an extension of the given one. -/
theorem Obeys.mono {p : Prog Op Res ε α} (hp : p.Obeys D Q h)
    (hQ : ∀ t r, Q (t ++ h) r → Q' (t ++ h) r) : p.Obeys D Q' h := by
  induction p generalizing h with
  | ret a => exact hQ [] _ hp
  | raise e => exact hQ [] _ hp
  | op o k ih =>
      refine ⟨hp.1, fun r hr => ih r (hp.2 r hr) fun t r' hq => ?_⟩
      have := hQ (t ++ [⟨o, r⟩]) r'
      simp only [List.append_assoc, List.singleton_append] at this
      exact this hq

/-- A discipline that allows more and expects no more. -/
theorem Obeys.weaken {D' : Discipline Op Res ε} {p : Prog Op Res ε α} (hp : p.Obeys D Q h)
    (hmay : ∀ t o, D.may t o → D'.may t o) (hgives : ∀ t o r, D'.gives t o r → D.gives t o r) :
    p.Obeys D' Q h := by
  induction p generalizing h with
  | ret a => exact hp
  | raise e => exact hp
  | op o k ih => exact ⟨hmay _ _ hp.1, fun r hr => ih r (hp.2 r (hgives _ _ _ hr))⟩

/-- What holds of every call that may be made holds of the whole history. -/
theorem Obeys.history {q : Op → Prop} {p : Prog Op Res ε α} (hp : p.Obeys D Q h)
    (hq : ∀ t o, D.may t o → q o) (hh : ∀ c ∈ h, q c.op) :
    p.Obeys ⟨fun t o => D.may t o ∧ ∀ c ∈ t, q c.op, D.gives⟩
      (fun t r => Q t r ∧ ∀ c ∈ t, q c.op) h := by
  induction p generalizing h with
  | ret a => exact ⟨hp, hh⟩
  | raise e => exact ⟨hp, hh⟩
  | op o k ih =>
      refine ⟨⟨hp.1, hh⟩, fun r hr => ih r (hp.2 r hr) fun c hc => ?_⟩
      rcases List.mem_cons.mp hc with rfl | hc
      · exact hq _ _ hp.1
      · exact hh c hc

@[simp] theorem obeys_bind {p : Prog Op Res ε α} {f : α → Prog Op Res ε β}
    {Q : List (Call Op Res ε) → Except ε β → Prop} :
    (p.bind f).Obeys D Q h ↔
      p.Obeys D (fun t r => match r with
        | .ok a => (f a).Obeys D Q t
        | .error e => Q t (.error e)) h := by
  induction p generalizing h with
  | ret a => rfl
  | raise e => rfl
  | op o k ih => simp only [bind, obeys_op, ih]

@[simp] theorem obeys_tryCatch {p : Prog Op Res ε α} {f : ε → Prog Op Res ε α} :
    (p.tryCatch f).Obeys D Q h ↔
      p.Obeys D (fun t r => match r with
        | .ok a => Q t (.ok a)
        | .error e => (f e).Obeys D Q t) h := by
  induction p generalizing h with
  | ret a => rfl
  | raise e => rfl
  | op o k ih => simp only [tryCatch, obeys_op, ih]

@[simp] theorem obeys_perform {o : Op} {Q : List (Call Op Res ε) → Except ε (Res o) → Prop} :
    (perform o).Obeys D Q h ↔
      D.may h o ∧ ∀ r, D.gives h o r → Q (⟨o, r⟩ :: h) r := by
  simp only [perform, obeys_op]
  refine and_congr_right fun _ => forall_congr' fun r => imp_congr_right fun _ => ?_
  cases r <;> rfl

/-- A program at its end has kept its promise. -/
theorem Obeys.of_isDone {p : Prog Op Res ε α} (hp : p.Obeys D Q h) (hd : p.isDone = true) :
    ∃ r, Q h r := by
  cases p with
  | ret a => exact ⟨_, hp⟩
  | raise e => exact ⟨_, hp⟩
  | op o k => cases hd

/-- Whatever it has called so far, a program comes to some end, and keeps its promise there. -/
theorem Obeys.exists_end {p : Prog Op Res ε α} (hp : p.Obeys D Q h)
    (hgives : ∀ t o, ∃ r, D.gives t o r) : ∃ t r, Q (t ++ h) r := by
  induction p generalizing h with
  | ret a => exact ⟨[], _, hp⟩
  | raise e => exact ⟨[], _, hp⟩
  | op o k ih =>
      obtain ⟨r, hr⟩ := hgives h o
      obtain ⟨t, r', hend⟩ := ih r (hp.2 r hr)
      refine ⟨t ++ [⟨o, r⟩], r', ?_⟩
      rw [List.append_assoc]
      exact hend

theorem Obeys.ite {b : Prop} [Decidable b] {p q : Prog Op Res ε α} (hp : b → p.Obeys D Q h)
    (hq : ¬ b → q.Obeys D Q h) : (if b then p else q).Obeys D Q h := by
  split
  · exact hp ‹_›
  · exact hq ‹_›

/-- The rule for a call that something is done with. -/
theorem Obeys.call {o : Op} {f : Res o → Prog Op Res ε β}
    {Q : List (Call Op Res ε) → Except ε β → Prop} (hmay : D.may h o)
    (hok : ∀ a, D.gives h o (.ok a) → (f a).Obeys D Q (⟨o, .ok a⟩ :: h))
    (herr : ∀ e, D.gives h o (.error e) → Q (⟨o, .error e⟩ :: h) (.error e)) :
    (perform o >>= f).Obeys D Q h := by
  rw [bind_eq, obeys_bind, obeys_perform]
  refine ⟨hmay, fun r hr => ?_⟩
  cases r with
  | ok a => exact hok a hr
  | error e => exact herr e hr

/-- A postcondition in two parts: for the value a program returns, and for what it raises. -/
def post (ok : List (Call Op Res ε) → α → Prop) (error : List (Call Op Res ε) → ε → Prop)
    (h : List (Call Op Res ε)) : Except ε α → Prop
  | .ok a => ok h a
  | .error e => error h e

/-- The rule for sequencing, through what the first program leaves behind. -/
theorem Obeys.bind {p : Prog Op Res ε α} {f : α → Prog Op Res ε β}
    {Q : List (Call Op Res ε) → Except ε β → Prop}
    {R : List (Call Op Res ε) → Except ε α → Prop} (hp : p.Obeys D R h)
    (hok : ∀ t a, R (t ++ h) (.ok a) → (f a).Obeys D Q (t ++ h))
    (herr : ∀ t e, R (t ++ h) (.error e) → Q (t ++ h) (.error e)) : (p >>= f).Obeys D Q h := by
  rw [bind_eq, obeys_bind]
  refine hp.mono fun t r hr => ?_
  cases r with
  | ok a => exact hok t a hr
  | error e => exact herr t e hr

/-- The rule for a handler of exceptions. -/
theorem Obeys.tryCatch {p : Prog Op Res ε α} {f : ε → Prog Op Res ε α}
    {R : List (Call Op Res ε) → Except ε α → Prop} (hp : p.Obeys D R h)
    (hok : ∀ t a, R (t ++ h) (.ok a) → Q (t ++ h) (.ok a))
    (herr : ∀ t e, R (t ++ h) (.error e) → (f e).Obeys D Q (t ++ h)) :
    (p.tryCatch f).Obeys D Q h := by
  rw [obeys_tryCatch]
  refine hp.mono fun t r hr => ?_
  cases r with
  | ok a => exact hok t a hr
  | error e => exact herr t e hr

end Obeys

end Prog

end Effect
