import HyperTrace.Effect.Prog

/-!
# Methods of an object, and loops that need not end

A method works on the attributes of its object. What it assigned before it raised
stays assigned, so the state is kept beside the exception: `Method` is a program
over `Prog` that ends with a value or an exception *and* the state of the object.

A service thread is a loop around such methods that nothing bounds. `Reaches` is
its execution, call by call and round by round; there is no number of rounds in
it, so what is proved of everything reached is proved of every execution however
long. The rule for a loop is the usual one, an invariant at the start of each
round.
-/

namespace Effect

variable {Op : Type} {Res : Op → Type} {ε σ α β L : Type}

/-- A program over the state of an object, which survives an exception. -/
abbrev Method (Op : Type) (Res : Op → Type) (ε σ α : Type) : Type :=
  ExceptT ε (StateT σ (Prog Op Res ε)) α

namespace Method

/-- Call `o`: an exception it answers with is raised, the state staying as it is. -/
def perform (o : Op) : Method Op Res ε σ (Res o) := fun s => .op o fun r => .ret (r, s)

/-- A handler that raises again what it caught does nothing. -/
theorem tryCatch_throw (m : Method Op Res ε σ α) :
    (MonadExcept.tryCatch m fun e => throw e) = m := by
  funext s
  refine (congrArg (Prog.bind (m s)) (funext fun r => ?_)).trans (Prog.bind_ret (m s))
  obtain ⟨r, s'⟩ := r
  cases r <;> rfl

/-- Started after the history `h` in the state `s`, the method obeys `D` and ends with `Q`. -/
def Obeys (D : Discipline Op Res ε) (Q : List (Call Op Res ε) → Except ε α → σ → Prop)
    (h : List (Call Op Res ε)) (s : σ) (m : Method Op Res ε σ α) : Prop :=
  Prog.Obeys D (Prog.post (fun t r => Q t r.1 r.2) fun _ _ => False) h (m s)

section Obeys

variable {D : Discipline Op Res ε} {Q Q' : List (Call Op Res ε) → Except ε α → σ → Prop}
variable {h : List (Call Op Res ε)} {s : σ}

theorem Obeys.mono {m : Method Op Res ε σ α} (hm : Obeys D Q h s m)
    (hQ : ∀ t r s', Q t r s' → Q' t r s') : Obeys D Q' h s m := by
  refine Prog.Obeys.mono hm fun t r hr => ?_
  cases r with
  | ok r => exact hQ _ _ _ hr
  | error e => exact hr.elim

/-- The rule for sequencing, through what the first method leaves behind. -/
theorem Obeys.bind {R : List (Call Op Res ε) → Except ε β → σ → Prop}
    {m : Method Op Res ε σ β} {f : β → Method Op Res ε σ α} (hm : Obeys D R h s m)
    (hok : ∀ t b s', R t (.ok b) s' → Obeys D Q t s' (f b))
    (herr : ∀ t e s', R t (.error e) s' → Q t (.error e) s') : Obeys D Q h s (m >>= f) := by
  refine Prog.Obeys.bind (p := m s) (f := fun r => ExceptT.bindCont f r.1 r.2) hm ?_ ?_
  · intro t r hr
    obtain ⟨r, s'⟩ := r
    cases r with
    | ok b => exact hok _ b s' hr
    | error e => exact herr _ e s' hr
  · intro t e hr
    exact hr.elim

/-- The rule for a handler of exceptions: the state is what the method left. -/
theorem Obeys.tryCatch {R : List (Call Op Res ε) → Except ε α → σ → Prop}
    {m : Method Op Res ε σ α} {f : ε → Method Op Res ε σ α} (hm : Obeys D R h s m)
    (hok : ∀ t a s', R t (.ok a) s' → Q t (.ok a) s')
    (herr : ∀ t e s', R t (.error e) s' → Obeys D Q t s' (f e)) :
    Obeys D Q h s (MonadExcept.tryCatch m f) := by
  refine Prog.Obeys.bind (p := m s) hm ?_ ?_
  · intro t r hr
    obtain ⟨r, s'⟩ := r
    cases r with
    | ok a => exact hok _ a s' hr
    | error e => exact herr _ e s' hr
  · intro t e hr
    exact hr.elim

/-- The rule for one call. -/
theorem Obeys.perform {o : Op} {Q : List (Call Op Res ε) → Except ε (Res o) → σ → Prop}
    (hmay : D.may h o) (hq : ∀ r, D.gives h o r → Q (⟨o, r⟩ :: h) r s) :
    Obeys D Q h s (perform o) :=
  ⟨hmay, hq⟩

/-- The rule for a call that something is done with. -/
theorem Obeys.call {o : Op} {f : Res o → Method Op Res ε σ α} (hmay : D.may h o)
    (hok : ∀ a, D.gives h o (.ok a) → Obeys D Q (⟨o, .ok a⟩ :: h) s (f a))
    (herr : ∀ e, D.gives h o (.error e) → Q (⟨o, .error e⟩ :: h) (.error e) s) :
    Obeys D Q h s (Method.perform o >>= f) := by
  refine Obeys.bind (R := fun t r s' => t = ⟨o, r⟩ :: h ∧ s' = s ∧ D.gives h o r) ?_ ?_ ?_
  · exact Obeys.perform hmay fun r hr => ⟨rfl, rfl, hr⟩
  · intro t a s' hr
    obtain ⟨rfl, rfl, hgives⟩ := hr
    exact hok a hgives
  · intro t e s' hr
    obtain ⟨rfl, rfl, hgives⟩ := hr
    exact herr e hgives

/-- A postcondition in two parts: for the value a method returns, and for what it raises. -/
def post (ok : List (Call Op Res ε) → α → σ → Prop) (error : List (Call Op Res ε) → ε → σ → Prop)
    (t : List (Call Op Res ε)) : Except ε α → σ → Prop
  | .ok a, s => ok t a s
  | .error e, s => error t e s

/-! Reading and assigning attributes makes no call. -/

@[simp] theorem obeys_get_bind {f : σ → Method Op Res ε σ α} :
    Obeys D Q h s (get >>= f) ↔ Obeys D Q h s (f s) := Iff.rfl

@[simp] theorem obeys_modify_bind {g : σ → σ} {f : PUnit → Method Op Res ε σ α} :
    Obeys D Q h s (modify g >>= f) ↔ Obeys D Q h (g s) (f ⟨⟩) := Iff.rfl

@[simp] theorem obeys_set {Q : List (Call Op Res ε) → Except ε PUnit → σ → Prop} {s' : σ} :
    Obeys D Q h s (MonadStateOf.set s' : Method Op Res ε σ PUnit) ↔ Q h (.ok ⟨⟩) s' := Iff.rfl

@[simp] theorem obeys_pure {a : α} : Obeys D Q h s (Pure.pure a) ↔ Q h (.ok a) s := Iff.rfl

@[simp] theorem obeys_throw {e : ε} :
    Obeys D Q h s (MonadExcept.throw e : Method Op Res ε σ α) ↔ Q h (.error e) s := Iff.rfl

end Obeys

end Method

/-! ## Loops -/

/-- What one round of a loop comes to: where to go on, or the result of the loop. -/
inductive Round (L α : Type) where
  | again (l : L)
  | done (a : α)

/-- A round in progress. -/
abbrev Rounds (Op : Type) (Res : Op → Type) (ε σ L α : Type) : Type :=
  Prog Op Res ε (Except ε (Round L α) × σ)

/--
`Reaches gives body h p t q`: with the history `h` behind it and `p` left of its round,
the loop may get to the history `t` with `q` left, its calls being answered as `gives`
says. A round that ends with `again` is followed by the next one.
-/
inductive Reaches (gives : List (Call Op Res ε) → (o : Op) → Except ε (Res o) → Prop)
    (body : L → Method Op Res ε σ (Round L α)) :
    List (Call Op Res ε) → Rounds Op Res ε σ L α → List (Call Op Res ε) →
      Rounds Op Res ε σ L α → Prop where
  | refl (h : List (Call Op Res ε)) (p : Rounds Op Res ε σ L α) : Reaches gives body h p h p
  | call {h t : List (Call Op Res ε)} {o : Op} {r : Except ε (Res o)}
      {k : Except ε (Res o) → Rounds Op Res ε σ L α} {q : Rounds Op Res ε σ L α}
      (hr : gives h o r) (hk : Reaches gives body (⟨o, r⟩ :: h) (k r) t q) :
      Reaches gives body h (.op o k) t q
  | again {h t : List (Call Op Res ε)} {l : L} {s : σ} {q : Rounds Op Res ε σ L α}
      (hl : Reaches gives body h (body l s) t q) :
      Reaches gives body h (.ret (.ok (.again l), s)) t q

/-- Every call of a history was one the discipline lets be made at that point. -/
def Discipline.Kept (D : Discipline Op Res ε) (t : List (Call Op Res ε)) : Prop :=
  ∀ c s, c :: s <:+ t → D.may s c.op

theorem Discipline.Kept.nil (D : Discipline Op Res ε) : D.Kept [] := by
  intro c s hs
  have := List.suffix_nil.mp hs
  cases this

theorem Discipline.Kept.cons {D : Discipline Op Res ε} {t : List (Call Op Res ε)} {o : Op}
    {r : Except ε (Res o)} (ht : D.Kept t) (ho : D.may t o) : D.Kept (⟨o, r⟩ :: t) := by
  intro c s hs
  rcases List.suffix_cons_iff.mp hs with heq | hs
  · cases heq
    exact ho
  · exact ht c s hs

/-- What a round ends with: the invariant for the next one, or the postcondition of the loop. -/
def loopPost (Inv : List (Call Op Res ε) → L → σ → Prop)
    (Q : List (Call Op Res ε) → Except ε α → Prop) (t : List (Call Op Res ε)) :
    Except ε (Round L α) → σ → Prop
  | .ok (.again l), s => Inv t l s
  | .ok (.done a), _ => Q t (.ok a)
  | .error e, _ => Q t (.error e)

/-- **The rule for loops.** -/
theorem Reaches.kept {D : Discipline Op Res ε} {body : L → Method Op Res ε σ (Round L α)}
    {Inv : List (Call Op Res ε) → L → σ → Prop} {Q : List (Call Op Res ε) → Except ε α → Prop}
    (hbody : ∀ h l s, Inv h l s → Method.Obeys D (loopPost Inv Q) h s (body l))
    {h t : List (Call Op Res ε)} {p q : Rounds Op Res ε σ L α}
    (hreach : Reaches D.gives body h p t q)
    (hp : p.Obeys D (Prog.post (fun t r => loopPost Inv Q t r.1 r.2) fun _ _ => False) h)
    (hh : D.Kept h) :
    D.Kept t ∧ q.Obeys D (Prog.post (fun t r => loopPost Inv Q t r.1 r.2) fun _ _ => False) t := by
  induction hreach with
  | refl h p => exact ⟨hh, hp⟩
  | call hr _ ih => exact ih (hp.2 _ hr) (hh.cons hp.1)
  | again _ ih => exact ih (hbody _ _ _ hp) hh

end Effect
