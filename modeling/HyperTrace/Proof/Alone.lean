import HyperTrace.Proof.World

/-!
# A handler on its own

What one handler does when nothing fails and nobody else is around. The calls of
such a run are peeled off one at a time, each by what it answers.
-/

namespace HyperTrace.Proof

open HyperTrace Effect

variable {K : Type}

/-- Nothing fails, and the database returns rows that tie in the given order. -/
def sound (tie : Nat → Nat) : Nat → Choice := fun _ => ⟨.none, tie⟩

variable {α β : Type} {tie : Nat → Nat} {w v : World K}

theorem run_call [Scalar K] {o : Op K} {a : o.Res} {f : o.Res → Py K α}
    (h : exec w o ⟨.none, tie⟩ = (.ok a, v)) :
    (call o >>= f).run exec (sound tie) w = (f a).run exec (sound tie) v := by
  have hok := Prog.run_perform_bind_ok exec (sound tie) w f (congrArg Prod.fst h)
  rw [show (exec w o (sound tie 0)).2 = v from congrArg Prod.snd h] at hok
  exact hok

theorem run_bind [Scalar K] {p : Py K α} {f : α → Py K β} {a : α}
    (h : p.run exec (sound tie) w = (.ok a, v)) :
    (p >>= f).run exec (sound tie) w = (f a).run exec (sound tie) v := by
  have hb := Prog.run_bind_const exec w ⟨.none, tie⟩ p f
  rw [show (p.run exec (fun _ => ⟨.none, tie⟩) w) = _ from h] at hb
  exact hb

theorem run_bind_error [Scalar K] {p : Py K α} {f : α → Py K β} {e : Err}
    (h : p.run exec (sound tie) w = (.error e, v)) :
    (p >>= f).run exec (sound tie) w = (.error e, v) := by
  have hb := Prog.run_bind_const exec w ⟨.none, tie⟩ p f
  rw [show (p.run exec (fun _ => ⟨.none, tie⟩) w) = _ from h] at hb
  exact hb

end HyperTrace.Proof
