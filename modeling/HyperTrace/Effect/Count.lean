import Mathlib.Data.List.Infix
import Mathlib.Data.List.Nodup
import Mathlib.Data.List.Perm.Basic

/-!
# Counting the same things twice

Two kinds of elements of one list are equally many when each key has at most one of
either kind, and one of the first kind exactly when it has one of the second. And
when one kind is among another and they are equally many, they are the same.
-/

namespace Effect

variable {α β : Type} {l : List α} {p q : α → Bool}

/-- What holds of every element and all that stand behind it holds pairwise. -/
theorem pairwise_of_suffix {R : α → α → Prop}
    (h : ∀ x pre, x :: pre <:+ l → ∀ y ∈ pre, R x y) : l.Pairwise R := by
  induction l with
  | nil => exact .nil
  | cons x l ih =>
      refine .cons (h x l (List.suffix_refl _)) (ih fun y pre hsuf => ?_)
      exact h y pre (hsuf.trans (List.suffix_cons _ _))

/-- Where nothing of the kind stands behind one of it, there is at most one. -/
theorem countP_le_one_of_suffix (h : ∀ x pre, x :: pre <:+ l → p x = true → pre.countP p = 0) :
    l.countP p ≤ 1 := by
  induction l with
  | nil => exact Nat.zero_le _
  | cons x l ih =>
      rw [List.countP_cons]
      split
      · rename_i hx
        rw [h x l (List.suffix_refl _) hx]
      · exact ih fun y pre hsuf => h y pre (hsuf.trans (List.suffix_cons x l))

/-- At most one element of the kind has any one key. -/
def OnePer (key : α → β) (p : α → Bool) (l : List α) : Prop :=
  ∀ x pre, x :: pre <:+ l → p x = true → ∀ y ∈ pre, p y = true → key x ≠ key y

theorem OnePer.nodup {key : α → β} (h : OnePer key p l) : ((l.filter p).map key).Nodup := by
  rw [List.nodup_iff_pairwise_ne, List.pairwise_map, List.pairwise_filter]
  refine pairwise_of_suffix fun x pre hsuf y hy hx hpy => ?_
  exact h x pre hsuf hx y hy hpy

/-- **As many of the one kind as of the other**, matched by their keys. -/
theorem countP_eq_of_key {key : α → β} (hp : OnePer key p l) (hq : OnePer key q l)
    (hpq : ∀ x ∈ l, p x = true → ∃ y ∈ l, q y = true ∧ key y = key x)
    (hqp : ∀ x ∈ l, q x = true → ∃ y ∈ l, p y = true ∧ key y = key x) :
    l.countP p = l.countP q := by
  have hmem : ∀ k, k ∈ (l.filter p).map key ↔ k ∈ (l.filter q).map key := by
    intro k
    simp only [List.mem_map, List.mem_filter]
    constructor
    · intro h
      obtain ⟨x, ⟨hx, hpx⟩, rfl⟩ := h
      obtain ⟨y, hy, hqy, hkey⟩ := hpq x hx hpx
      exact ⟨y, ⟨hy, hqy⟩, hkey⟩
    · intro h
      obtain ⟨x, ⟨hx, hqx⟩, rfl⟩ := h
      obtain ⟨y, hy, hpy, hkey⟩ := hqp x hx hqx
      exact ⟨y, ⟨hy, hpy⟩, hkey⟩
  have hperm := (List.perm_ext_iff_of_nodup hp.nodup hq.nodup).mpr hmem
  have hlength := hperm.length_eq
  rw [List.length_map, List.length_map] at hlength
  rw [List.countP_eq_length_filter, List.countP_eq_length_filter, hlength]

/-- A kind that is among another one, and no rarer, is the same. -/
theorem eq_of_countP_eq (hpq : ∀ x ∈ l, p x = true → q x = true)
    (h : l.countP p = l.countP q) : ∀ x ∈ l, q x = true → p x = true := by
  induction l with
  | nil => simp
  | cons x l ih =>
      have hle : l.countP p ≤ l.countP q :=
        List.countP_mono_left fun y hy => hpq y (List.mem_cons_of_mem _ hy)
      have hx := hpq x (List.mem_cons_self ..)
      rw [List.countP_cons, List.countP_cons] at h
      have hsame : q x = true → p x = true := by
        intro hqx
        by_contra hpx
        rw [if_neg hpx, if_pos hqx] at h
        omega
      -- the head counts for both or for neither, so the tails agree
      have htail : l.countP p = l.countP q := by
        by_cases hpx : p x = true
        · rw [if_pos hpx, if_pos (hx hpx)] at h
          omega
        · rw [if_neg hpx, if_neg fun hqx => hpx (hsame hqx)] at h
          exact h
      intro y hy hqy
      rcases List.mem_cons.mp hy with rfl | hy
      · exact hsame hqy
      · exact ih (fun z hz => hpq z (List.mem_cons_of_mem _ hz)) htail y hy hqy

end Effect
