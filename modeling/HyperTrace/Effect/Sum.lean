import HyperTrace.Effect.Loop

/-!
# Programs over two interfaces

An object that works through another one makes the calls of that one and some of
its own. `Prog.inl` reads a program over the first interface as a program over
both, without a change to what it does. Such a program knows nothing of the other
interface, but what it is allowed may depend on calls of both, so its discipline
is that of the whole with the history of the whole behind it.
-/

namespace Effect

variable {Op₁ Op₂ : Type} {Res₁ : Op₁ → Type} {Res₂ : Op₂ → Type} {ε σ α β : Type}

/-- A call of the first interface. -/
def Call.inl (c : Call Op₁ Res₁ ε) : Call (Op₁ ⊕ Op₂) (Sum.elim Res₁ Res₂) ε := ⟨.inl c.op, c.res⟩

def Prog.inl : Prog Op₁ Res₁ ε α → Prog (Op₁ ⊕ Op₂) (Sum.elim Res₁ Res₂) ε α
  | .ret a => .ret a
  | .raise e => .raise e
  | .op o k => .op (.inl o) fun r => (k r).inl

def Method.inl (m : Method Op₁ Res₁ ε σ α) : Method (Op₁ ⊕ Op₂) (Sum.elim Res₁ Res₂) ε σ α :=
  fun s => Prog.inl (m s)

theorem Prog.inl_bind (p : Prog Op₁ Res₁ ε α) (f : α → Prog Op₁ Res₁ ε β) :
    ((p.bind f).inl : Prog (Op₁ ⊕ Op₂) (Sum.elim Res₁ Res₂) ε β)
      = p.inl.bind fun a => (f a).inl := by
  induction p with
  | ret a => rfl
  | raise e => rfl
  | op o k ih => exact congrArg (Prog.op _) (funext ih)

variable {D : Discipline (Op₁ ⊕ Op₂) (Sum.elim Res₁ Res₂) ε}
variable {h : List (Call (Op₁ ⊕ Op₂) (Sum.elim Res₁ Res₂) ε)}

/-- What `D` lets a program over the first interface do that is started after the history `h`. -/
def Discipline.left (D : Discipline (Op₁ ⊕ Op₂) (Sum.elim Res₁ Res₂) ε)
    (h : List (Call (Op₁ ⊕ Op₂) (Sum.elim Res₁ Res₂) ε)) : Discipline Op₁ Res₁ ε where
  may t o := D.may (t.map Call.inl ++ h) (.inl o)
  gives t o r := D.gives (t.map Call.inl ++ h) (.inl o) r

/-- Over both interfaces a program of the first one does what it does over its own. -/
theorem Prog.obeys_inl {Q : List (Call (Op₁ ⊕ Op₂) (Sum.elim Res₁ Res₂) ε) → Except ε α → Prop}
    {p : Prog Op₁ Res₁ ε α} {t : List (Call Op₁ Res₁ ε)} :
    p.inl.Obeys D Q (t.map Call.inl ++ h) ↔
      p.Obeys (D.left h) (fun t r => Q (t.map Call.inl ++ h) r) t := by
  induction p generalizing t with
  | ret a => rfl
  | raise e => rfl
  | op o k ih =>
      refine and_congr Iff.rfl (forall_congr' fun r => imp_congr_right fun _ => ?_)
      exact ih r (t := ⟨o, r⟩ :: t)

/-- **A method of the object below**, in a method of the object above. -/
theorem Method.obeys_inl
    {Q : List (Call (Op₁ ⊕ Op₂) (Sum.elim Res₁ Res₂) ε) → Except ε α → σ → Prop}
    {m : Method Op₁ Res₁ ε σ α} {s : σ} :
    Method.Obeys D Q h s m.inl ↔
      Method.Obeys (D.left h) (fun t r s' => Q (t.map Call.inl ++ h) r s') [] s m := by
  refine (Prog.obeys_inl (t := [])).trans (iff_of_eq (congrArg (Prog.Obeys _ · _ _) ?_))
  funext t r
  cases r <;> rfl

end Effect
