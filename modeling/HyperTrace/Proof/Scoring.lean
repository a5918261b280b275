import HyperTrace.Behaviour.Stats
import HyperTrace.Common.Exact
import HyperTrace.Numeric.Moments

/-!
# What a bucket knows, and how far a value is from it

A bucket's three numbers are running moments, so everything that is known of those
holds of it. Its z-score is compared with a threshold by comparing squares, where
no root is taken.
-/

namespace HyperTrace.BucketStats

open Numeric

variable {K : Type}

def moments (s : BucketStats K) : Moments K := ⟨s.n, s.mean, s.m2⟩

@[simp] theorem moments_n (s : BucketStats K) : s.moments.n = s.n := rfl

variable [Scalar K]

@[simp] theorem moments_update (s : BucketStats K) (v : K) :
    (s.update v).moments = s.moments.push v := rfl

theorem moments_iterate (s : BucketStats K) (v : K) (k : ℕ) :
    ((fun t => update t v)^[k] s).moments = (fun t => t.push v)^[k] s.moments := by
  induction k with
  | zero => rfl
  | succ k ih => rw [Function.iterate_succ_apply', Function.iterate_succ_apply', ← ih, moments_update]

@[simp] theorem iterate_n (s : BucketStats K) (v : K) (k : ℕ) :
    ((fun t => update t v)^[k] s).n = s.n + k := by
  induction k with
  | zero => rfl
  | succ k ih => rw [Function.iterate_succ_apply', update_n, ih, Nat.add_assoc]

theorem iterate_m2_nonneg {s : BucketStats K} (h : 0 ≤ s.m2) (v : K) (k : ℕ) :
    0 ≤ ((fun t => update t v)^[k] s).m2 := by
  have hm := Moments.iterate_m2_nonneg (s := s.moments) h v k
  rw [← moments_iterate] at hm
  exact hm

theorem iterate_m2_pos {s : BucketStats K} (h : 0 < s.m2) (v : K) (k : ℕ) :
    0 < ((fun t => update t v)^[k] s).m2 := by
  by_cases hk : 0 < s.n + k
  · have hm := Moments.iterate_m2_pos (s := s.moments) h v k hk
    rw [← moments_iterate] at hm
    exact hm
  · obtain rfl : k = 0 := by omega
    exact h

/-! ## Comparing a z-score -/

section

variable [ExactSqrt K]

/-- What a positive spread gives: a root that is positive, and whose square it is. -/
theorem stddev_spec {s : BucketStats K} (hn : 2 ≤ s.n) (hm : 0 < s.m2) :
    0 < s.stddev ∧ s.stddev * s.stddev = s.m2 / ((s.n : K) - 1) := by
  have h2 : (2 : K) ≤ s.n := by exact_mod_cast hn
  have hvar : 0 < s.m2 / ((s.n : K) - 1) := div_pos hm (by linarith)
  have hdev : s.stddev = Scalar.sqrt (s.m2 / ((s.n : K) - 1)) := by
    rw [stddev, if_neg (by omega), Nat.cast_sub (by omega), Nat.cast_one]
  have hsq := ExactSqrt.sqrt_mul_self _ hvar.le
  rw [hdev]
  refine ⟨lt_of_le_of_ne (ExactSqrt.sqrt_nonneg _ hvar.le) ?_, hsq⟩
  intro h0
  rw [← h0, mul_zero] at hsq
  exact absurd hsq hvar.ne

theorem score2_eq {s : BucketStats K} (hn : 2 ≤ s.n) (hm : 0 < s.m2) (v : K) :
    Moments.score2 s.moments v = ((v - s.mean) / s.stddev) ^ 2 := by
  obtain ⟨hpos, hsq⟩ := stddev_spec hn hm
  rw [div_pow, sq s.stddev, hsq, Moments.score2]
  show (v - s.mean) ^ 2 * ((s.n : K) - 1) / s.m2 = _
  rw [div_div_eq_mul_div]

theorem zScore_eq {s : BucketStats K} (hn : 2 ≤ s.n) (hm : 0 < s.m2) (v : K) :
    s.zScore v = (v - s.mean) / s.stddev := by
  rw [zScore, if_neg (stddev_spec hn hm).1.ne']

/-- **A value scores above `c` if it is above the mean, and its square above the square of `c`.** -/
theorem lt_zScore_iff {s : BucketStats K} (hn : 2 ≤ s.n) (hm : 0 < s.m2) {c : K} (hc : 0 ≤ c)
    (v : K) : c < s.zScore v ↔ s.mean < v ∧ c ^ 2 < Moments.score2 s.moments v := by
  obtain ⟨hpos, _⟩ := stddev_spec hn hm
  rw [zScore_eq hn hm, score2_eq hn hm]
  constructor
  · intro h
    have hz := lt_of_le_of_lt hc h
    refine ⟨?_, pow_lt_pow_left₀ h hc two_ne_zero⟩
    exact sub_pos.mp ((div_pos_iff_of_pos_right hpos).mp hz)
  · intro hx
    obtain ⟨hlt, hsq⟩ := hx
    exact lt_of_pow_lt_pow_left₀ 2 (div_nonneg (sub_pos.mpr hlt).le hpos.le) hsq

theorem le_zScore_iff {s : BucketStats K} (hn : 2 ≤ s.n) (hm : 0 < s.m2) {c : K} (hc : 0 < c)
    (v : K) : c ≤ s.zScore v ↔ s.mean < v ∧ c ^ 2 ≤ Moments.score2 s.moments v := by
  obtain ⟨hpos, _⟩ := stddev_spec hn hm
  rw [zScore_eq hn hm, score2_eq hn hm]
  constructor
  · intro h
    have hz := lt_of_lt_of_le hc h
    refine ⟨?_, pow_le_pow_left₀ hc.le h 2⟩
    exact sub_pos.mp ((div_pos_iff_of_pos_right hpos).mp hz)
  · intro hx
    obtain ⟨hlt, hsq⟩ := hx
    exact le_of_sq_le_sq hsq (div_nonneg (sub_pos.mpr hlt).le hpos.le)

/-- A bucket without spread scores everything 0; one with spread by the square. -/
theorem zScore_le {s : BucketStats K} (hm : 0 ≤ s.m2) {c : K} (hc : 0 ≤ c) {v : K}
    (h : (v - s.mean) ^ 2 * ((s.n - 1 : ℕ) : K) ≤ c ^ 2 * s.m2) : s.zScore v ≤ c := by
  by_cases hspread : 2 ≤ s.n ∧ 0 < s.m2
  · obtain ⟨hn, hpos⟩ := hspread
    rw [← not_lt, lt_zScore_iff hn hpos hc]
    intro hx
    obtain ⟨_, hlt⟩ := hx
    rw [Nat.cast_sub (by omega), Nat.cast_one] at h
    have hgt := (lt_div_iff₀ (show 0 < s.moments.m2 from hpos)).mp hlt
    exact absurd h (not_le.mpr hgt)
  -- no spread, or fewer than two values: the deviation is 0
  · have hdev : s.stddev = 0 := by
      rw [stddev]
      split
      · rfl
      · have h0 : s.m2 = 0 := by
          by_contra hne
          exact hspread ⟨by omega, lt_of_le_of_ne hm (Ne.symm hne)⟩
        have hsq := ExactSqrt.sqrt_mul_self (0 : K) (le_refl _)
        rw [h0, zero_div]
        exact mul_self_eq_zero.mp hsq
    rw [zScore, if_pos hdev]
    exact hc

end

end HyperTrace.BucketStats
