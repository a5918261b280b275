import Mathlib.Data.List.Infix

/-!
# Sliding windows

A rate limit that looks back from each admission bounds every window, wherever it
starts: the last one admitted inside a window saw all the others. Events stand in
a list, newest first, and nothing is assumed about how their times are spaced.
-/

namespace Effect

variable {E T : Type} [LE T] [DecidableLE T] [Add T]

/-- The events from `a` on. -/
def fromTime (q : E → Bool) (time : E → T) (a : T) (e : E) : Bool := q e && decide (a ≤ time e)

/-- The events in the closed window of width `W` that starts at `a`. -/
def inWindow (q : E → Bool) (time : E → T) (W a : T) (e : E) : Bool :=
  q e && decide (a ≤ time e) && decide (time e ≤ a + W)

variable {q : E → Bool} {time : E → T} {W : T} {n : Nat}

/--
**No window holds more than the limit.**

It is enough that each event found fewer than that many before it, counted from the
start of any window the event is in.
-/
theorem countP_inWindow_le {l : List E}
    (hroom : ∀ e pre, e :: pre <:+ l → q e = true → ∀ a, a ≤ time e → time e ≤ a + W →
      pre.countP (fromTime q time a) < n) (a : T) :
    l.countP (inWindow q time W a) ≤ n := by
  induction l with
  | nil => exact Nat.zero_le _
  | cons e pre ih =>
      have hpre := ih fun e' pre' hsuf => hroom e' pre' (hsuf.trans (List.suffix_cons e pre))
      cases hin : inWindow q time W a e with
      | false => rwa [List.countP_cons_of_neg (by simp [hin])]
      | true =>
          simp only [inWindow, Bool.and_eq_true, decide_eq_true_eq] at hin
          have hlt := hroom e pre (List.suffix_refl _) hin.1.1 a hin.1.2 hin.2
          have hle : pre.countP (inWindow q time W a) ≤ pre.countP (fromTime q time a) := by
            refine List.countP_mono_left fun e' _ he' => ?_
            simp only [inWindow, Bool.and_eq_true] at he'
            simp only [fromTime, he'.1, Bool.and_self]
          rw [List.countP_cons_of_pos (by simp [inWindow, hin])]
          omega

end Effect
