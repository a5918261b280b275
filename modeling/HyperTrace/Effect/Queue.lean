import Mathlib.Data.List.Basic

/-!
# Queues with a bound

First in, first out, and full when the bound is reached: `putNowait` and `getNowait`
fail where the caller would have to wait. What is taken out and what is still in there,
one after the other, is everything that was put.
-/

namespace Effect

/-- A bound of zero is none. -/
structure Queue (α : Type) where
  maxsize : Nat
  items : List α

namespace Queue

variable {α : Type} {q q' : Queue α} {x : α}

def new (maxsize : Nat) : Queue α := ⟨maxsize, []⟩

def full (q : Queue α) : Bool := decide (0 < q.maxsize ∧ q.maxsize ≤ q.items.length)

/-- `none` if the queue is full. -/
def putNowait (q : Queue α) (x : α) : Option (Queue α) :=
  if q.full then none else some { q with items := q.items ++ [x] }

/-- `none` if the queue is empty. -/
def getNowait (q : Queue α) : Option (α × Queue α) :=
  match q.items with
  | [] => none
  | x :: items => some (x, { q with items := items })

@[simp] theorem new_items (maxsize : Nat) : (new maxsize : Queue α).items = [] := rfl

theorem putNowait_eq_none : q.putNowait x = none ↔ q.full = true := by
  simp [putNowait]

theorem putNowait_eq_some :
    q.putNowait x = some q' ↔ q.full = false ∧ q' = { q with items := q.items ++ [x] } := by
  unfold putNowait
  cases q.full <;> simp [eq_comm]

theorem getNowait_eq_some : q.getNowait = some (x, q') ↔
    q.items = x :: q'.items ∧ q'.maxsize = q.maxsize := by
  obtain ⟨maxsize, items⟩ := q
  obtain ⟨maxsize', items'⟩ := q'
  cases items with
  | nil => simp [getNowait]
  | cons y items => simp [getNowait]; grind

/-- The queue has this bound, and keeps it. -/
structure Bounded (n : Nat) (q : Queue α) : Prop where
  maxsize : q.maxsize = n
  length : q.items.length ≤ n

namespace Bounded

variable {n : Nat}

theorem new (n : Nat) : Bounded n (new n : Queue α) := ⟨rfl, Nat.zero_le _⟩

theorem full_iff (h : Bounded n q) (hn : 0 < n) : q.full = true ↔ q.items.length = n := by
  have := h.length
  simp only [full, h.maxsize, decide_eq_true_eq]
  omega

theorem put (h : Bounded n q) (hn : 0 < n) (hput : q.putNowait x = some q') : Bounded n q' := by
  obtain ⟨hfull, rfl⟩ := putNowait_eq_some.mp hput
  have hne : q.items.length ≠ n := fun heq => by
    rw [(h.full_iff hn).mpr heq] at hfull
    cases hfull
  have := h.length
  exact ⟨h.maxsize, by rw [List.length_append, List.length_singleton]; omega⟩

theorem get (h : Bounded n q) (hget : q.getNowait = some (x, q')) : Bounded n q' := by
  obtain ⟨hitems, hmax⟩ := getNowait_eq_some.mp hget
  have := h.length
  rw [hitems, List.length_cons] at this
  exact ⟨hmax.trans h.maxsize, by omega⟩

end Bounded

end Queue

end Effect
