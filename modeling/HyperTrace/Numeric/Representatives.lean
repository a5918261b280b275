import Mathlib.Algebra.BigOperators.Group.Finset.Piecewise
import Mathlib.Algebra.Order.BigOperators.Group.Finset

/-!
# One for all

A sum over groups that takes one member of each group, instead of all, is too small
by what the others have. Where nobody has less than nothing, it is right only if the
others have nothing, and then it is right for each group.
-/

namespace Numeric

variable {ι κ M : Type} [DecidableEq ι] [DecidableEq κ]

/-- One member of each group. -/
structure Represents (s : Finset ι) (group : ι → κ) (rep : κ → ι) : Prop where
  mem : ∀ i ∈ s, rep (group i) ∈ s
  same : ∀ i ∈ s, group (rep (group i)) = group i

section

variable [AddCommMonoid M] {s : Finset ι} {group : ι → κ} {rep : κ → ι}

/-- The sum over the groups is the sum over their representatives. -/
theorem Represents.sum_eq (h : Represents s group rep) (f : ι → M) :
    ∑ k ∈ s.image group, f (rep k) = ∑ i ∈ s with i = rep (group i), f i := by
  refine Finset.sum_nbij' rep group ?_ ?_ ?_ ?_ fun _ _ => rfl
  · intro k hk
    obtain ⟨i, hi, rfl⟩ := Finset.mem_image.mp hk
    exact Finset.mem_filter.mpr ⟨h.mem i hi, by rw [h.same i hi]⟩
  · intro i hi
    exact Finset.mem_image_of_mem group (Finset.mem_filter.mp hi).1
  · intro k hk
    obtain ⟨i, hi, rfl⟩ := Finset.mem_image.mp hk
    exact h.same i hi
  · intro i hi
    exact (Finset.mem_filter.mp hi).2.symm

omit [DecidableEq ι] in
/-- A group whose other members have nothing has what its representative has. -/
theorem Represents.sum_group (h : Represents s group rep) {f : ι → M}
    (hnone : ∀ i ∈ s, i ≠ rep (group i) → f i = 0) {i : ι} (hi : i ∈ s) :
    ∑ j ∈ s with group j = group i, f j = f (rep (group i)) := by
  refine Finset.sum_eq_single_of_mem _ (Finset.mem_filter.mpr ⟨h.mem i hi, h.same i hi⟩) ?_
  intro j hj hne
  obtain ⟨hjs, hgroup⟩ := Finset.mem_filter.mp hj
  exact hnone j hjs (hgroup ▸ hne)

end

variable [AddCommGroup M] [LinearOrder M] [IsOrderedAddMonoid M] {s : Finset ι} {group : ι → κ}
  {rep : κ → ι}

/-- **The representatives have what all have exactly if the others have nothing.** -/
theorem Represents.sum_eq_iff (h : Represents s group rep) {f : ι → M} (hf : ∀ i ∈ s, 0 ≤ f i) :
    ∑ k ∈ s.image group, f (rep k) = ∑ i ∈ s, f i ↔ ∀ i ∈ s, i ≠ rep (group i) → f i = 0 := by
  have hsplit := Finset.sum_filter_add_sum_filter_not s (fun i => i = rep (group i)) f
  have hothers : ∀ i ∈ s.filter (fun i => ¬ i = rep (group i)), 0 ≤ f i :=
    fun i hi => hf i (Finset.mem_filter.mp hi).1
  rw [h.sum_eq, ← hsplit, left_eq_add, Finset.sum_eq_zero_iff_of_nonneg hothers]
  simp only [Finset.mem_filter, and_imp, ne_eq]

end Numeric
