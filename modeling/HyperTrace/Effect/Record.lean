import HyperTrace.Effect.Prog
import Mathlib.Data.List.Infix

/-!
# The record of a run

A program that is executed on its own leaves a record: its calls, newest first,
each with the state it was made in and the state it led to. Without the states the
record is the transcript the program's discipline speaks about, so in the record of
a program that keeps to a discipline every call was allowed after the ones before
it. With the states it is a path from where the run began to where it ended.
-/

namespace Effect

/-- A call in a run, with the states around it. -/
structure Made (Op : Type) (Res : Op → Type) (ε σ : Type) where
  op : Op
  res : Except ε (Res op)
  before : σ
  after : σ

variable {Op : Type} {Res : Op → Type} {ε α β σ χ : Type}

/-- The call as its own program sees it. -/
def Made.call (e : Made Op Res ε σ) : Call Op Res ε := ⟨e.op, e.res⟩

/-- The transcript of a record. -/
def told (l : List (Made Op Res ε σ)) : List (Call Op Res ε) := l.map Made.call

@[simp] theorem told_nil : told ([] : List (Made Op Res ε σ)) = [] := rfl

@[simp] theorem told_cons (e : Made Op Res ε σ) (l : List (Made Op Res ε σ)) :
    told (e :: l) = e.call :: told l := rfl

theorem mem_told {l : List (Made Op Res ε σ)} {c : Call Op Res ε} :
    c ∈ told l ↔ ∃ e ∈ l, e.call = c := by
  simp [told]

/-- What is in a list stands before a rest of it. -/
theorem exists_suffix_of_mem {l : List β} {e : β} (he : e ∈ l) : ∃ pre, e :: pre <:+ l := by
  obtain ⟨post, pre, rfl⟩ := List.append_of_mem he
  exact ⟨pre, post, rfl⟩

/-- A call in a transcript is one of the record, and what stands before it came before. -/
theorem told_split {l : List (Made Op Res ε σ)} {u t : List (Call Op Res ε)} {c : Call Op Res ε}
    (h : told l = u ++ c :: t) : ∃ e pre, e :: pre <:+ l ∧ e.call = c ∧ told pre = t := by
  obtain ⟨post, rest, rfl, _, hrest⟩ := List.map_eq_append_iff.mp h
  obtain ⟨e, pre, rfl, hc, ht⟩ := List.map_eq_cons_iff.mp hrest
  exact ⟨e, pre, ⟨post, rfl⟩, hc, ht⟩

/-- Every call of the record was allowed after those before it. -/
def Allowed (D : Discipline Op Res ε) (l : List (Made Op Res ε σ)) : Prop :=
  ∀ e pre, e :: pre <:+ l → D.may (told pre) e.op

/-- From `s` the calls of the record, one after the other, lead to `s'`. -/
inductive Leads (exec : σ → (o : Op) → χ → Except ε (Res o) × σ) (s : σ) :
    List (Made Op Res ε σ) → σ → Prop where
  | nil : Leads exec s [] s
  | call {l : List (Made Op Res ε σ)} {s' : σ} (o : Op) (x : χ) : Leads exec s l s' →
      Leads exec s (⟨o, (exec s' o x).1, s', (exec s' o x).2⟩ :: l) (exec s' o x).2

namespace Leads

variable {exec : σ → (o : Op) → χ → Except ε (Res o) × σ} {s s' : σ}
variable {l : List (Made Op Res ε σ)}

/-- A call of the record was executed where the record before it leads. -/
theorem before (h : Leads exec s l s') {e : Made Op Res ε σ} {pre : List (Made Op Res ε σ)}
    (he : e :: pre <:+ l) :
    Leads exec s pre e.before ∧ ∃ x, exec e.before e.op x = (e.res, e.after) := by
  induction h with
  | nil => simp at he
  | call o x h ih =>
      rcases List.suffix_cons_iff.mp he with heq | he
      · obtain ⟨rfl, rfl⟩ := List.cons.inj heq
        exact ⟨h, x, rfl⟩
      · exact ih he

/-- What every call keeps, the run keeps. -/
theorem keeps {R : σ → σ → Prop} (hrefl : ∀ s, R s s) (htrans : ∀ s t u, R s t → R t u → R s u)
    (h : Leads exec s l s') (hstep : ∀ e ∈ l, R e.before e.after) : R s s' := by
  induction h with
  | nil => exact hrefl s
  | call o x h ih =>
      refine htrans _ _ _ (ih fun e he => hstep e (List.mem_cons_of_mem _ he)) ?_
      exact hstep _ (List.mem_cons_self ..)

/-- A part of the state that no call changes. -/
theorem keeps_eq {f : σ → β} (h : Leads exec s l s') (hstep : ∀ e ∈ l, f e.after = f e.before) :
    f s' = f s :=
  h.keeps (R := fun s t => f t = f s) (fun _ => rfl) (fun _ _ _ h₁ h₂ => h₂.trans h₁) hstep

/-- The part of the state that only one call of the record changes is as it left it. -/
theorem changed_once {f : σ → β} (h : Leads exec s l s') {e : Made Op Res ε σ} (he : e ∈ l)
    (hother : ∀ e' pre, e' :: pre <:+ l → e ∈ pre → f e'.after = f e'.before) :
    f s' = f e.after := by
  induction h with
  | nil => cases he
  | call o x h ih =>
      rcases List.mem_cons.mp he with rfl | he'
      · rfl
      · refine (hother _ _ (List.suffix_refl _) he').trans (ih he' ?_)
        intro e' pre hsuf
        exact hother e' pre (hsuf.trans (List.suffix_cons _ _))

end Leads

namespace Prog

variable (exec : σ → (o : Op) → χ → Except ε (Res o) × σ)

/-- The record of a run, put before the record `l`. -/
def made : Prog Op Res ε α → (Nat → χ) → σ → List (Made Op Res ε σ) → List (Made Op Res ε σ)
  | .op o k, c, s, l =>
      (k (exec s o (c 0)).1).made (fun n => c (n + 1)) (exec s o (c 0)).2
        (⟨o, (exec s o (c 0)).1, s, (exec s o (c 0)).2⟩ :: l)
  | _, _, _, l => l

variable {exec} {s₀ s : σ} {l : List (Made Op Res ε σ)} {p : Prog Op Res ε α}

/-- The record leads to where the run ends. -/
theorem made_leads (h : Leads exec s₀ l s) (p : Prog Op Res ε α) (c : Nat → χ) :
    Leads exec s₀ (p.made exec c s l) (p.run exec c s).2 := by
  induction p generalizing c s l with
  | ret a => exact h
  | raise e => exact h
  | op o k ih => exact ih _ (h.call o (c 0)) _

/-- **A run keeps to the discipline of its program**, whatever the calls answer. -/
theorem Obeys.made {D : Discipline Op Res ε} {Q : List (Call Op Res ε) → Except ε α → Prop}
    (hp : p.Obeys D Q (told l)) (hl : Allowed D l)
    (hanswers : ∀ h s o x, D.gives h o (exec s o x).1) (c : Nat → χ) :
    Allowed D (p.made exec c s l) ∧ Q (told (p.made exec c s l)) (p.run exec c s).1 := by
  induction p generalizing c s l with
  | ret a => exact ⟨hl, hp⟩
  | raise e => exact ⟨hl, hp⟩
  | op o k ih =>
      obtain ⟨hmay, hrest⟩ := hp
      refine ih (exec s o (c 0)).1 (l := ⟨o, (exec s o (c 0)).1, s, (exec s o (c 0)).2⟩ :: l)
        (hrest _ (hanswers _ s o (c 0))) ?_ _
      intro e pre he
      rcases List.suffix_cons_iff.mp he with heq | he
      · obtain ⟨rfl, rfl⟩ := List.cons.inj heq
        exact hmay
      · exact hl e pre he

end Prog

end Effect
