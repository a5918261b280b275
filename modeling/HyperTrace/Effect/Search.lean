import Mathlib.Data.List.Basic

/-!
# Looking for the first

`List.findM?` with a test that may raise. The search ends at the first element on which
the test does not simply answer no, and what the test answers there is what the search
answers; all that a search can find is read off from that.
-/

namespace Effect

variable {ε α : Type} {p : α → Except ε Bool} {a : α} {l before rest : List α}

theorem findM?_cons_of_false (h : p a = .ok false) : (a :: l).findM? p = l.findM? p := by
  rw [List.findM?, h]
  rfl

theorem findM?_cons_of_ne (h : p a ≠ .ok false) :
    (a :: l).findM? p = (p a).map fun _ => some a := by
  rw [List.findM?]
  cases hp : p a with
  | error e => rfl
  | ok b =>
      cases b with
      | true => rfl
      | false => exact absurd hp h

theorem findM?_append (h : ∀ b ∈ before, p b = .ok false) :
    (before ++ rest).findM? p = rest.findM? p := by
  induction before with
  | nil => rfl
  | cons b before ih =>
      rw [List.cons_append, findM?_cons_of_false (h b (List.mem_cons_self ..))]
      exact ih fun c hc => h c (List.mem_cons_of_mem _ hc)

/-- The element a search ends at, and what it answers. -/
structure EndsAt (p : α → Except ε Bool) (l before : List α) (a : α) (after : List α) : Prop where
  split : l = before ++ a :: after
  missed : ∀ b ∈ before, p b = .ok false
  ends : p a ≠ .ok false
  answer : l.findM? p = (p a).map fun _ => some a

/-- **A search goes through the list in vain, or it ends somewhere.** -/
theorem findM?_cases (p : α → Except ε Bool) (l : List α) :
    (∀ a ∈ l, p a = .ok false) ∧ l.findM? p = .ok none
      ∨ ∃ before a after, EndsAt p l before a after := by
  induction l with
  | nil => exact .inl ⟨by simp, rfl⟩
  | cons a l ih =>
      by_cases ha : p a = .ok false
      · rcases ih with ⟨hall, heq⟩ | ⟨before, b, after, hb⟩
        · exact .inl ⟨List.forall_mem_cons.mpr ⟨ha, hall⟩, (findM?_cons_of_false ha).trans heq⟩
        · refine .inr ⟨a :: before, b, after, ?_, ?_, hb.ends, ?_⟩
          · rw [hb.split, List.cons_append]
          · exact List.forall_mem_cons.mpr ⟨ha, hb.missed⟩
          · exact (findM?_cons_of_false ha).trans hb.answer
      · exact .inr ⟨[], a, l, rfl, by simp, ha, findM?_cons_of_ne ha⟩

/-- There it has found the element, or the test raised. -/
theorem EndsAt.cases {after : List α} (h : EndsAt p l before a after) :
    p a = .ok true ∧ l.findM? p = .ok (some a) ∨ ∃ e, p a = .error e ∧ l.findM? p = .error e := by
  rw [h.answer]
  cases ha : p a with
  | error e => exact .inr ⟨e, rfl, rfl⟩
  | ok found =>
      cases found with
      | true => exact .inl ⟨rfl, rfl⟩
      | false => exact absurd ha h.ends

/-- What is found passes the test, and nothing before it does. -/
theorem findM?_eq_some (h : l.findM? p = .ok (some a)) :
    ∃ before after, l = before ++ a :: after ∧ p a = .ok true ∧ ∀ b ∈ before, p b = .ok false := by
  rcases findM?_cases p l with ⟨-, heq⟩ | ⟨before, b, after, hb⟩
  · rw [h] at heq
    cases heq
  · rcases hb.cases with ⟨hp, heq⟩ | ⟨e, -, heq⟩
    · rw [h] at heq
      cases heq
      exact ⟨before, after, hb.split, hp, hb.missed⟩
    · rw [h] at heq
      cases heq

theorem findM?_eq_none (h : l.findM? p = .ok none) : ∀ a ∈ l, p a = .ok false := by
  rcases findM?_cases p l with ⟨hall, -⟩ | ⟨before, b, after, hb⟩
  · exact hall
  · rcases hb.cases with ⟨-, heq⟩ | ⟨e, -, heq⟩
    · rw [h] at heq
      cases heq
    · rw [h] at heq
      cases heq

/-- A search that raises does so at an element that nothing before it kept it from. -/
theorem findM?_eq_error {e : ε} (h : l.findM? p = .error e) :
    ∃ before a after, l = before ++ a :: after ∧ p a = .error e
      ∧ ∀ b ∈ before, p b = .ok false := by
  rcases findM?_cases p l with ⟨-, heq⟩ | ⟨before, b, after, hb⟩
  · rw [h] at heq
    cases heq
  · rcases hb.cases with ⟨-, heq⟩ | ⟨e', hp, heq⟩
    · rw [h] at heq
      cases heq
    · rw [h] at heq
      cases heq
      exact ⟨before, b, after, hb.split, hp, hb.missed⟩

/-- If the test raises on an element that nothing passes before, then the search raises. -/
theorem findM?_raises {e : ε} (ha : p a = .error e) (h : ∀ b ∈ before, p b ≠ .ok true) :
    ∃ e, (before ++ a :: rest).findM? p = .error e := by
  induction before with
  | nil =>
      refine ⟨e, (findM?_cons_of_ne ?_).trans ?_⟩
      · rw [ha]
        intro hfalse
        cases hfalse
      · rw [ha]
        rfl
  | cons b before ih =>
      cases hb : p b with
      | error e' =>
          refine ⟨e', (findM?_cons_of_ne ?_).trans ?_⟩
          · rw [hb]
            intro hfalse
            cases hfalse
          · rw [hb]
            rfl
      | ok found =>
          cases found with
          | true => exact absurd hb (h b (List.mem_cons_self ..))
          | false =>
              rw [List.cons_append, findM?_cons_of_false hb]
              exact ih fun c hc => h c (List.mem_cons_of_mem _ hc)

end Effect
