import HyperTrace.Effect.Record
import HyperTrace.Effect.Sum

/-!
# Programs that only make calls of a kind

`Prog.Obeys` speaks about a program that minds what it was answered. Where it does
not matter, what a program calls can be read off its text: `Prog.Only q` says that no
branch of it, taken or not, makes a call outside `q`. For the methods of an object and the
loops around them there is the same, beside `Minds`: it says what a method may call, and
nothing of how it ends.
-/

namespace Effect

namespace Prog

variable {Op : Type} {Res : Op → Type} {ε α β : Type} {q : Op → Prop}

/-- No branch makes a call that is not of the kind. -/
def Only (q : Op → Prop) : Prog Op Res ε α → Prop
  | .ret _ => True
  | .raise _ => True
  | .op o k => q o ∧ ∀ r, (k r).Only q

@[simp] theorem only_ret (a : α) : (Prog.ret a : Prog Op Res ε α).Only q := trivial

@[simp] theorem only_raise (e : ε) : (Prog.raise e : Prog Op Res ε α).Only q := trivial

theorem Only.bind {p : Prog Op Res ε α} {f : α → Prog Op Res ε β} (hp : p.Only q)
    (hf : ∀ a, (f a).Only q) : (p >>= f).Only q := by
  induction p with
  | ret a => exact hf a
  | raise e => trivial
  | op o k ih => exact ⟨hp.1, fun r => ih r (hp.2 r)⟩

theorem Only.tryCatch {p : Prog Op Res ε α} {f : ε → Prog Op Res ε α} (hp : p.Only q)
    (hf : ∀ e, (f e).Only q) : (p.tryCatch f).Only q := by
  induction p with
  | ret a => trivial
  | raise e => exact hf e
  | op o k ih => exact ⟨hp.1, fun r => ih r (hp.2 r)⟩

theorem only_perform {o : Op} (ho : q o) : (perform o : Prog Op Res ε (Res o)).Only q :=
  ⟨ho, fun r => by cases r <;> trivial⟩

/-- The rule for a call that something is done with. -/
theorem Only.call {o : Op} {f : Res o → Prog Op Res ε β} (ho : q o) (hf : ∀ a, (f a).Only q) :
    (perform o >>= f).Only q :=
  (only_perform ho).bind hf

theorem Only.ite {b : Prop} [Decidable b] {p p' : Prog Op Res ε α} (hp : p.Only q)
    (hp' : p'.Only q) : (if b then p else p').Only q := by
  split <;> assumption

/-- A discipline that minds nothing but the kind of a call. -/
theorem Only.obeys {D : Discipline Op Res ε} {p : Prog Op Res ε α} (hp : p.Only q)
    (hmay : ∀ t o, q o → D.may t o) (h : List (Call Op Res ε)) :
    p.Obeys D (fun _ _ => True) h := by
  induction p generalizing h with
  | ret a => trivial
  | raise e => trivial
  | op o k ih => exact ⟨hmay h o hp.1, fun r _ => ih r (hp.2 r) _⟩

/-- In the record of a run there are only calls of the kind. -/
theorem Only.made {χ σ : Type} {exec : σ → (o : Op) → χ → Except ε (Res o) × σ}
    {p : Prog Op Res ε α} (hp : p.Only q) (c : Nat → χ) (s : σ) (l : List (Made Op Res ε σ)) :
    ∀ e ∈ p.made exec c s l, e ∈ l ∨ q e.op := by
  induction p generalizing c s l with
  | ret a => exact fun e he => Or.inl he
  | raise e => exact fun e he => Or.inl he
  | op o k ih =>
      intro e he
      rcases ih _ (hp.2 _) _ _ _ e he with hl | hq
      · rcases List.mem_cons.mp hl with rfl | hl
        · exact Or.inr hp.1
        · exact Or.inl hl
      · exact Or.inr hq

end Prog

namespace Method

variable {Op : Type} {Res : Op → Type} {ε σ α β : Type} {q : Op → Prop}

/-- No branch makes a call that is not of the kind. -/
def Only (q : Op → Prop) (m : Method Op Res ε σ α) : Prop := ∀ s, Prog.Only q (m s)

theorem Only.bind {m : Method Op Res ε σ β} {f : β → Method Op Res ε σ α} (hm : Only q m)
    (hf : ∀ b, Only q (f b)) : Only q (m >>= f) := by
  refine fun s => Prog.Only.bind (hm s) fun r => ?_
  obtain ⟨r, s'⟩ := r
  cases r with
  | ok b => exact hf b s'
  | error e => trivial

theorem Only.tryCatch {m : Method Op Res ε σ α} {f : ε → Method Op Res ε σ α} (hm : Only q m)
    (hf : ∀ e, Only q (f e)) : Only q (MonadExcept.tryCatch m f) := by
  refine fun s => Prog.Only.bind (hm s) fun r => ?_
  obtain ⟨r, s'⟩ := r
  cases r with
  | ok a => trivial
  | error e => exact hf e s'

theorem only_pure (a : α) : Only q (pure a : Method Op Res ε σ α) := fun _ => trivial

theorem only_throw (e : ε) : Only q (throw e : Method Op Res ε σ α) := fun _ => trivial

theorem only_perform {o : Op} (ho : q o) : Only q (perform o : Method Op Res ε σ (Res o)) :=
  fun _ => ⟨ho, fun r => by cases r <;> trivial⟩

theorem only_get : Only q (get : Method Op Res ε σ σ) := fun _ => trivial

theorem only_modify (g : σ → σ) : Only q (modify g : Method Op Res ε σ PUnit) := fun _ => trivial

theorem only_set (s : σ) : Only q (set s : Method Op Res ε σ PUnit) := fun _ => trivial

theorem Only.ite {b : Prop} [Decidable b] {m m' : Method Op Res ε σ α} (hm : Only q m)
    (hm' : Only q m') : Only q (if b then m else m') := by
  split <;> assumption

/-- A program over the first of two interfaces makes no call of the second. -/
theorem only_inl {Op₂ : Type} {Res₂ : Op₂ → Type} {q : Op ⊕ Op₂ → Prop} (hq : ∀ o, q (.inl o))
    (m : Method Op Res ε σ α) :
    Only q (m.inl : Method (Op ⊕ Op₂) (Sum.elim Res Res₂) ε σ α) := by
  have hprog : ∀ {β : Type} (p : Prog Op Res ε β),
      Prog.Only q (p.inl : Prog (Op ⊕ Op₂) (Sum.elim Res Res₂) ε β) := by
    intro β p
    induction p with
    | ret a => trivial
    | raise e => trivial
    | op o k ih => exact ⟨hq o, ih⟩
  exact fun s => hprog (m s)

theorem only_forM {γ : Type} {f : γ → Method Op Res ε σ PUnit} (hf : ∀ a, Only q (f a)) :
    ∀ l : List γ, Only q (l.forM f)
  | [] => only_pure _
  | a :: l => (hf a).bind fun _ => only_forM hf l

variable {D : Discipline Op Res ε} {h : List (Call Op Res ε)} {s : σ}

/-- After the history `h` in the state `s`, every call is one the discipline allows. -/
def Minds (D : Discipline Op Res ε) (h : List (Call Op Res ε)) (s : σ)
    (m : Method Op Res ε σ α) : Prop :=
  Prog.Obeys D (fun _ _ => True) h (m s)

theorem Only.minds {m : Method Op Res ε σ α} (hm : Only q m) (hmay : ∀ t o, q o → D.may t o)
    (h : List (Call Op Res ε)) (s : σ) : Minds D h s m :=
  (hm s).obeys hmay h

theorem Minds.bind {m : Method Op Res ε σ β} {f : β → Method Op Res ε σ α} (hm : Minds D h s m)
    (hf : ∀ t b s', Minds D t s' (f b)) : Minds D h s (m >>= f) := by
  refine Prog.Obeys.bind (p := m s) (f := fun r => ExceptT.bindCont f r.1 r.2) hm ?_ ?_
  · intro t r _
    obtain ⟨r, s'⟩ := r
    cases r with
    | ok b => exact hf _ b s'
    | error e => trivial
  · intro t e _
    trivial

theorem Minds.tryCatch {m : Method Op Res ε σ α} {f : ε → Method Op Res ε σ α}
    (hm : Minds D h s m) (hf : ∀ t e s', Minds D t s' (f e)) :
    Minds D h s (MonadExcept.tryCatch m f) := by
  refine Prog.Obeys.bind (p := m s) hm ?_ ?_
  · intro t r _
    obtain ⟨r, s'⟩ := r
    cases r with
    | ok a => trivial
    | error e => exact hf _ e s'
  · intro t e _
    trivial

/-- A call, and what follows on its answer. -/
theorem Minds.call {o : Op} {f : Res o → Method Op Res ε σ α} (hmay : D.may h o)
    (hf : ∀ a, Minds D (⟨o, .ok a⟩ :: h) s (f a)) : Minds D h s (perform o >>= f) := by
  refine ⟨hmay, fun r _ => ?_⟩
  cases r with
  | ok a => exact hf a
  | error e => trivial

end Method

/-- **The rule for loops of which it matters only what they call.** -/
theorem Reaches.minds {Op : Type} {Res : Op → Type} {ε σ α L : Type} {D : Discipline Op Res ε}
    {body : L → Method Op Res ε σ (Round L α)}
    (hbody : ∀ h l s, Method.Minds D h s (body l)) {h t : List (Call Op Res ε)}
    {p r : Rounds Op Res ε σ L α} (hreach : Reaches D.gives body h p t r)
    (hp : p.Obeys D (fun _ _ => True) h) (hh : D.Kept h) : D.Kept t := by
  induction hreach with
  | refl h p => exact hh
  | call hr _ ih => exact ih (hp.2 _ hr) (hh.cons hp.1)
  | again _ ih => exact ih (hbody _ _ _) hh

end Effect
