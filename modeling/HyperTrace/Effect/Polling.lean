import HyperTrace.Effect.Loop
import Mathlib.Data.Int.Notation

/-!
# Services that poll

A service that does its work again and again, whatever becomes of it, and sleeps for what
is left of its interval. What the work keeps, however it ends, the service keeps for good.
-/

namespace Effect

variable {Op : Type} {Res : Op → Type} {ε σ α β L : Type}

namespace Method

/-- However the method ends, it keeps the invariant, and obeys the discipline meanwhile. -/
def Keeps (D : Discipline Op Res ε) (Inv : List (Call Op Res ε) → σ → Prop)
    (m : Method Op Res ε σ α) : Prop :=
  ∀ h s, Inv h s → Obeys D (fun t _ s' => Inv t s') h s m

variable {D : Discipline Op Res ε} {Inv : List (Call Op Res ε) → σ → Prop}

theorem Keeps.bind {m : Method Op Res ε σ β} {f : β → Method Op Res ε σ α} (hm : Keeps D Inv m)
    (hf : ∀ b, Keeps D Inv (f b)) : Keeps D Inv (m >>= f) := fun h s hinv =>
  (hm h s hinv).bind (fun t b s' ht => hf b t s' ht) fun _ _ _ ht => ht

theorem Keeps.tryCatch {m : Method Op Res ε σ α} {f : ε → Method Op Res ε σ α}
    (hm : Keeps D Inv m) (hf : ∀ e, Keeps D Inv (f e)) :
    Keeps D Inv (MonadExcept.tryCatch m f) := fun h s hinv =>
  (hm h s hinv).tryCatch (fun _ _ _ ht => ht) fun t e s' ht => hf e t s' ht

theorem keeps_pure (a : α) : Keeps D Inv (pure a : Method Op Res ε σ α) := fun _ _ hinv => hinv

/-- A call that may always be made, and of which the invariant does not depend. -/
theorem keeps_perform {o : Op} (hmay : ∀ h, D.may h o)
    (hinv : ∀ h s r, Inv h s → Inv (⟨o, r⟩ :: h) s) :
    Keeps D Inv (perform o : Method Op Res ε σ (Res o)) := fun h s hs =>
  Obeys.perform (hmay h) fun r _ => hinv h s r hs

/-- Return the value of a computation, or raise its exception. -/
def ofExcept : Except ε α → Method Op Res ε σ α
  | .ok a => pure a
  | .error e => throw e

theorem obeys_ofExcept_bind {h : List (Call Op Res ε)} {s : σ} {x : Except ε β}
    {f : β → Method Op Res ε σ α} {Q : List (Call Op Res ε) → Except ε α → σ → Prop}
    (hok : ∀ b, x = .ok b → Obeys D Q h s (f b)) (herr : ∀ e, x = .error e → Q h (.error e) s) :
    Obeys D Q h s (ofExcept x >>= f) := by
  cases x with
  | ok b => exact hok b rfl
  | error e => exact herr e rfl

end Method

/-- A round: the clock is read before the work and after it, and an exception ends only the work. -/
def poll (monotonic : Method Op Res ε σ ℤ) (sleep : ℤ → Method Op Res ε σ Unit) (interval : ℤ)
    (work : Method Op Res ε σ Unit) : Unit → Method Op Res ε σ (Round Unit Empty) := fun _ => do
  let started ← monotonic
  try
    work
  catch _ =>
    pure ()
  let now ← monotonic
  sleep (max 0 (interval - (now - started)))
  return .again ()

variable {D : Discipline Op Res ε} {Inv : List (Call Op Res ε) → σ → Prop}

theorem keeps_poll {monotonic : Method Op Res ε σ ℤ} {sleep : ℤ → Method Op Res ε σ Unit}
    {interval : ℤ} {work : Method Op Res ε σ Unit} (hmono : monotonic.Keeps D Inv)
    (hsleep : ∀ d, (sleep d).Keeps D Inv) (hwork : work.Keeps D Inv) (l : Unit) :
    (poll monotonic sleep interval work l).Keeps D Inv :=
  hmono.bind fun _ => (hwork.tryCatch fun _ => Method.keeps_pure _).bind fun _ =>
    hmono.bind fun _ => (hsleep _).bind fun _ => Method.keeps_pure _

/-- **The rule for loops of which every round keeps the invariant however it ends.** -/
theorem Reaches.keeps {body : L → Method Op Res ε σ (Round L α)}
    (hbody : ∀ l, (body l).Keeps D Inv) {h t : List (Call Op Res ε)} {l : L} {s : σ}
    {q : Rounds Op Res ε σ L α} (hreach : Reaches D.gives body h (body l s) t q) (hinv : Inv h s)
    (hh : D.Kept h) : D.Kept t := by
  have hround : ∀ h l s, Inv h s →
      Method.Obeys D (loopPost (fun t _ s => Inv t s) fun _ _ => True) h s (body l) := by
    intro h l s hinv
    refine (hbody l h s hinv).mono fun t r s' hs' => ?_
    cases r with
    | ok r =>
        cases r with
        | again l' => exact hs'
        | done a => trivial
    | error e => trivial
  exact (hreach.kept hround (hround h l s hinv) hh).1

end Effect
