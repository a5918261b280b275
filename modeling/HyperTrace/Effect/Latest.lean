import Mathlib.Algebra.Order.Group.Defs

/-!
# The latest arrival

Things happen at one time and arrive at another, no sooner. Who remembers only when
the latest one arrived, and calls what is younger than `W` recent, is wrong for as
long as the arrival was late: `recent_iff` says when he is right at all times from
now on. What is remembered may be lost in between.
-/

namespace Effect

variable {E T : Type}

/-- What is remembered: the newest arrival, unless everything was forgotten after it. -/
def remembered (forgets : E → Bool) (seen : E → Option T) : List E → Option E
  | [] => none
  | e :: l => if forgets e then none else if (seen e).isSome then some e else remembered forgets seen l

variable {forgets : E → Bool} {seen : E → Option T}

variable [AddCommGroup T] [LinearOrder T] [IsOrderedAddMonoid T] {time : E → T} {W now : T}

/-- Something that was seen happened in the window before `t`. -/
def Within (seen : E → Option T) (W : T) (l : List E) (t : T) : Prop :=
  ∃ e ∈ l, ∃ s, seen e = some s ∧ s ≤ t ∧ t - s ≤ W

/-- What is remembered as younger than `W` arrived no later than something happened. -/
def Prompt (forgets : E → Bool) (seen : E → Option T) (time : E → T) (W now : T) (l : List E) :
    Prop :=
  ∀ e, remembered forgets seen l = some e → now - time e ≤ W →
    ∃ e' ∈ l, ∃ s, seen e' = some s ∧ time e ≤ s

/-- **What arrived in the window happened in it, at all times from now on, if nothing was late.** -/
theorem recent_iff (forgets : E → Bool) (W : T) {l : List E}
    (hcaused : ∀ e ∈ l, ∀ s, seen e = some s → s ≤ time e)
    (hpast : ∀ e ∈ l, time e ≤ now) :
    (∀ t, now ≤ t → (∃ e, remembered forgets seen l = some e ∧ t - time e ≤ W) → Within seen W l t)
      ↔ Prompt forgets seen time W now l := by
  constructor
  -- the last moment at which the arrival counts shows whether anything happened since
  · intro h e he hwithin
    have hnow : now ≤ time e + W := sub_le_iff_le_add'.mp hwithin
    obtain ⟨e', he', s, hs, _, hle⟩ := h (time e + W) hnow ⟨e, he, (add_sub_cancel_left _ _).le⟩
    refine ⟨e', he', s, hs, ?_⟩
    have hsum : time e + W ≤ s + W := sub_le_iff_le_add'.mp hle
    exact le_of_add_le_add_right hsum
  · intro h t ht hrecent
    obtain ⟨e, he, hwithin⟩ := hrecent
    have hnow : now - time e ≤ W := (sub_le_sub_right ht _).trans hwithin
    obtain ⟨e', he', s, hs, hle⟩ := h e he hnow
    have hst : s ≤ t := (hcaused e' he' s hs).trans ((hpast e' he').trans ht)
    exact ⟨e', he', s, hs, hst, (sub_le_sub_left hle t).trans hwithin⟩

/-! ## The newest first -/

section

variable {T : Type} [LinearOrder T] {time : E → T} {l : List E} {q : E → Bool} {e e' : E}

/-- In a list with the newest first, no two at the same time, the time says which it is. -/
theorem eq_of_time (hl : l.Pairwise fun a b => time b < time a) (he : e ∈ l) (he' : e' ∈ l)
    (h : time e = time e') : e = e' := by
  induction l with
  | nil => cases he
  | cons x l ih =>
      rw [List.pairwise_cons] at hl
      obtain rfl | hmem := List.mem_cons.mp he
      · obtain rfl | hmem' := List.mem_cons.mp he'
        · rfl
        · exact absurd h (hl.1 e' hmem').ne'
      · obtain rfl | hmem' := List.mem_cons.mp he'
        · exact absurd h (hl.1 e hmem).ne
        · exact ih hl.2 hmem hmem'

/-- Where two may come at the same time, the first of a kind is still no earlier than any other. -/
theorem exists_find_latest (time : E → T) (hl : l.Pairwise fun a b => time b ≤ time a)
    (he : e ∈ l) (hq : q e = true) : ∃ a, l.find? q = some a ∧ time e ≤ time a := by
  induction l with
  | nil => cases he
  | cons x l ih =>
      rw [List.pairwise_cons] at hl
      by_cases hx : q x = true
      · refine ⟨x, by rw [List.find?_cons, hx], ?_⟩
        rcases List.mem_cons.mp he with rfl | he
        · exact le_refl _
        · exact hl.1 e he
      · have hmem : e ∈ l := by
          rcases List.mem_cons.mp he with rfl | he
          · exact absurd hq hx
          · exact he
        obtain ⟨a, ha, hle⟩ := ih hl.2 hmem
        exact ⟨a, by rw [List.find?_cons_of_neg hx, ha], hle⟩

/-- **The first of a kind is the latest.** -/
theorem find_eq_some_iff (hl : l.Pairwise fun a b => time b < time a) :
    l.find? q = some e ↔ e ∈ l ∧ q e = true ∧ ∀ e' ∈ l, q e' = true → time e' ≤ time e := by
  constructor
  · intro h
    obtain ⟨hq, before, after, rfl, hbefore⟩ := List.find?_eq_some_iff_append.mp h
    refine ⟨List.mem_append_right _ (List.mem_cons_self ..), hq, ?_⟩
    intro e' he' hq'
    rw [List.pairwise_append, List.pairwise_cons] at hl
    obtain hmem | hmem := List.mem_append.mp he'
    · have hno := hbefore e' hmem
      rw [hq'] at hno
      cases hno
    · obtain rfl | hmem := List.mem_cons.mp hmem
      · exact le_refl _
      · exact (hl.2.1.1 e' hmem).le
  · intro h
    obtain ⟨he, hq, hlatest⟩ := h
    induction l with
    | nil => cases he
    | cons x l ih =>
        rw [List.pairwise_cons] at hl
        obtain rfl | hmem := List.mem_cons.mp he
        · rw [List.find?_cons_of_pos hq]
        -- what stands before it is later, so it is not of the kind
        · have hx : ¬ q x = true := fun hqx =>
            absurd (hlatest x (List.mem_cons_self ..) hqx) (not_le.mpr (hl.1 e hmem))
          rw [List.find?_cons_of_neg hx]
          exact ih hl.2 hmem fun e' he' => hlatest e' (List.mem_cons_of_mem _ he')

end

end Effect
