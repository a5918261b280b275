import Mathlib.Algebra.BigOperators.Ring.List
import Mathlib.Algebra.Order.Field.Basic
import Mathlib.Tactic.FieldSimp
import Mathlib.Tactic.Linarith
import Mathlib.Tactic.Positivity
import Mathlib.Tactic.Ring

/-!
# Running moments

Welford's recurrence keeps the number of values seen, their mean, and the sum of
their squared deviations from it, one value at a time. `foldr_push` says that it
loses nothing: the three numbers are those of the whole list.

The rest is about one value coming again and again. After `k` copies of it the
three numbers have a closed form (`iterate_push`), and so has the square of the
value's standardised distance from the mean (`decay_eq`). It falls with every
copy, and after `k` of them it is at most `n / k`, whatever it was before.
-/

namespace Numeric

/-- The number of values, their mean, and the sum of their squared deviations from it. -/
@[ext]
structure Moments (K : Type) where
  n : ℕ
  mean : K
  m2 : K

variable {K : Type} [Field K]

def average (xs : List K) : K := xs.sum / xs.length

/-- The sum of squared distances from `a`. -/
def deviations (xs : List K) (a : K) : K := (xs.map fun x => (x - a) ^ 2).sum

namespace Moments

def zero : Moments K := ⟨0, 0, 0⟩

/-- One more value. -/
def push (s : Moments K) (x : K) : Moments K :=
  let mean := s.mean + (x - s.mean) / ((s.n + 1 : ℕ) : K)
  ⟨s.n + 1, mean, s.m2 + (x - s.mean) * (x - mean)⟩

def ofList (xs : List K) : Moments K := ⟨xs.length, average xs, deviations xs (average xs)⟩

@[simp] theorem push_n (s : Moments K) (x : K) : (s.push x).n = s.n + 1 := rfl

end Moments

/-! ## Nothing is lost -/

/-- The squared distances from another point, by those from this one. -/
theorem deviations_shift (xs : List K) (a b : K) :
    deviations xs b
      = deviations xs a + 2 * (a - b) * (xs.sum - xs.length * a) + xs.length * (a - b) ^ 2 := by
  induction xs with
  | nil => simp [deviations]
  | cons x xs ih =>
      simp only [deviations, List.map_cons, List.sum_cons, List.length_cons] at ih ⊢
      rw [ih]
      push_cast
      ring

theorem length_mul_average [CharZero K] {xs : List K} (h : xs ≠ []) :
    (xs.length : K) * average xs = xs.sum := by
  have hn : (xs.length : K) ≠ 0 := Nat.cast_ne_zero.mpr (List.length_pos_iff.mpr h).ne'
  rw [average, mul_div_cancel₀ _ hn]

theorem average_cons [CharZero K] (x : K) (xs : List K) :
    average (x :: xs) = average xs + (x - average xs) / ((xs.length + 1 : ℕ) : K) := by
  have hn : ((xs.length + 1 : ℕ) : K) ≠ 0 := Nat.cast_ne_zero.mpr (Nat.succ_ne_zero _)
  have hsum : xs.sum = xs.length * average xs := by
    by_cases h : xs = []
    · simp [h]
    · exact (length_mul_average h).symm
  rw [average, List.sum_cons, List.length_cons, hsum]
  field_simp
  push_cast
  ring

namespace Moments

variable [CharZero K]

/-- **One push is one more element.** -/
theorem push_ofList (x : K) (xs : List K) : (ofList xs).push x = ofList (x :: xs) := by
  have hmean := average_cons x xs
  have hn : ((xs.length : K) + 1) ≠ 0 := by exact_mod_cast Nat.succ_ne_zero xs.length
  have hsum : xs.sum - xs.length * average xs = 0 := by
    by_cases h : xs = []
    · simp [h]
    · rw [length_mul_average h, sub_self]
  ext
  · simp [ofList]
  · exact hmean.symm
  · have hsplit : deviations (x :: xs) (average (x :: xs))
        = (x - average (x :: xs)) ^ 2 + deviations xs (average (x :: xs)) := by
      simp [deviations]
    simp only [ofList, push]
    rw [hsplit, deviations_shift xs (average xs) (average (x :: xs)), hsum, hmean]
    push_cast
    field_simp
    ring

end Moments

/-! ## One value, again and again -/

namespace Moments

section

variable [CharZero K]

/-- **The moments after `k` more copies of `v`.** -/
theorem iterate_push (s : Moments K) (v : K) {k : ℕ} (h : 0 < s.n + k) :
    (fun t => push t v)^[k] s =
      ⟨s.n + k, v - (v - s.mean) * s.n / ((s.n + k : ℕ) : K),
        s.m2 + (v - s.mean) ^ 2 * (s.n * k) / ((s.n + k : ℕ) : K)⟩ := by
  induction k with
  | zero =>
      have hn : (s.n : K) ≠ 0 := Nat.cast_ne_zero.mpr (by omega)
      ext <;> simp [hn]
  | succ k ih =>
      rw [Function.iterate_succ_apply']
      by_cases hk : s.n + k = 0
      · -- the very first value is the mean, wherever the mean was before
        obtain ⟨hn, rfl⟩ : s.n = 0 ∧ k = 0 := by omega
        ext <;> simp [push, hn]
      · rw [ih (by omega)]
        have hn : ((s.n : K) + k) ≠ 0 := by exact_mod_cast hk
        have hn' : ((s.n : K) + k + 1) ≠ 0 := by exact_mod_cast Nat.succ_ne_zero (s.n + k)
        ext
        · simp only [push]
          omega
        · simp only [push]
          push_cast
          rw [← add_assoc (s.n : K)]
          field_simp
          ring
        · simp only [push]
          push_cast
          rw [← add_assoc (s.n : K)]
          field_simp
          ring

end

/-- The squared distance of `v` from the mean, in units of the sample variance. -/
def score2 (s : Moments K) (v : K) : K := (v - s.mean) ^ 2 * ((s.n : K) - 1) / s.m2

/-- What becomes of a squared score `y` against `n` values after `k` copies of the value. -/
def decay (n : ℕ) (y : K) (k : ℕ) : K :=
  (n : K) ^ 2 * ((n : K) + k - 1) * y / (((n : K) + k) * (((n : K) + k) * ((n : K) - 1) + n * k * y))

variable [LinearOrder K] [IsStrictOrderedRing K]

theorem m2_push_nonneg {s : Moments K} (h : 0 ≤ s.m2) (x : K) : 0 ≤ (s.push x).m2 := by
  have hn : (0 : K) < s.n + 1 := by positivity
  have hgain : (x - s.mean) * (x - (s.push x).mean) = (x - s.mean) ^ 2 * (s.n / (s.n + 1)) := by
    simp only [push]
    push_cast
    field_simp
    ring
  have hprod : 0 ≤ (x - s.mean) ^ 2 * (s.n / ((s.n : K) + 1)) := by positivity
  show 0 ≤ s.m2 + (x - s.mean) * (x - (s.push x).mean)
  rw [hgain]
  exact add_nonneg h hprod

theorem iterate_m2_nonneg {s : Moments K} (h : 0 ≤ s.m2) (v : K) (k : ℕ) :
    0 ≤ ((fun t => push t v)^[k] s).m2 := by
  induction k with
  | zero => exact h
  | succ k ih =>
      rw [Function.iterate_succ_apply']
      exact m2_push_nonneg ih v

theorem iterate_m2_pos {s : Moments K} (h : 0 < s.m2) (v : K) (k : ℕ) (hn : 0 < s.n + k) :
    0 < ((fun t => push t v)^[k] s).m2 := by
  rw [iterate_push s v hn]
  have : 0 ≤ (v - s.mean) ^ 2 * ((s.n : K) * k) / ((s.n + k : ℕ) : K) := by positivity
  exact add_pos_of_pos_of_nonneg h this

/-- The distance from the mean keeps its sign. -/
theorem iterate_mean_lt {s : Moments K} {v : K} {k : ℕ} (hn : 0 < s.n) :
    ((fun t => push t v)^[k] s).mean < v ↔ s.mean < v := by
  have hk : 0 < s.n + k := by omega
  have h0 : (0 : K) < s.n := by exact_mod_cast hn
  have h1 : (0 : K) < ((s.n + k : ℕ) : K) := by exact_mod_cast hk
  rw [iterate_push s v hk]
  show v - _ < v ↔ _
  rw [sub_lt_self_iff]
  constructor
  · intro h
    by_contra hle
    have hle' : (v - s.mean) * s.n / ((s.n + k : ℕ) : K) ≤ 0 :=
      div_nonpos_of_nonpos_of_nonneg
        (mul_nonpos_of_nonpos_of_nonneg (sub_nonpos.mpr (not_lt.mp hle)) h0.le) h1.le
    exact absurd h (not_lt.mpr hle')
  · intro h
    exact div_pos (mul_pos (sub_pos.mpr h) h0) h1

/-- **The squared score after `k` copies, by what it was before.** -/
theorem decay_eq {s : Moments K} (hn : 2 ≤ s.n) (hm : 0 < s.m2) (v : K) (k : ℕ) :
    score2 ((fun t => push t v)^[k] s) v = decay s.n (score2 s v) k := by
  have h2 : (2 : K) ≤ s.n := by exact_mod_cast hn
  have hk : (0 : K) ≤ k := Nat.cast_nonneg k
  have hd : (0 : K) ≤ (v - s.mean) ^ 2 := sq_nonneg _
  have hnk : (0 : K) < s.n + k := by linarith
  have hden : (0 : K) < (s.n + k) * s.m2 + (v - s.mean) ^ 2 * (s.n * k) := by positivity
  have hone : (0 : K) < (s.n : K) - 1 := by linarith
  rw [iterate_push s v (by omega), score2, score2, decay]
  push_cast
  rw [sub_sub_cancel]
  field_simp

/-- **The squared score does not rise when the value comes again.** -/
theorem score2_push_le {s : Moments K} (hn : 2 ≤ s.n) (hm : 0 < s.m2) (v : K) :
    score2 (s.push v) v ≤ score2 s v := by
  have h2 : (2 : K) ≤ s.n := by exact_mod_cast hn
  have hone : (0 : K) < (s.n : K) - 1 := by linarith
  have hy : 0 ≤ score2 s v := div_nonneg (mul_nonneg (sq_nonneg _) hone.le) hm.le
  have hstep : score2 (s.push v) v = decay s.n (score2 s v) 1 := decay_eq hn hm v 1
  rw [hstep, decay]
  generalize score2 s v = y at hy
  generalize (s.n : K) = n at h2 hone
  push_cast
  rw [div_le_iff₀ (by positivity)]
  have hcube : n ^ 3 ≤ (n + 1) ^ 2 * (n - 1) := by nlinarith
  have hrest : 0 ≤ (n + 1) * (n * 1 * y) := by positivity
  calc n ^ 2 * (n + 1 - 1) * y = n ^ 3 * y := by ring
    _ ≤ ((n + 1) ^ 2 * (n - 1) + (n + 1) * (n * 1 * y)) * y :=
        mul_le_mul_of_nonneg_right (by linarith) hy
    _ = y * ((n + 1) * ((n + 1) * (n - 1) + n * 1 * y)) := by ring

/-- **After `k` copies the squared score is at most `n / k`**, whatever it was before. -/
theorem mul_sq_iterate_le {s : Moments K} (hm : 0 ≤ s.m2) (v : K) {k : ℕ} (hk : 0 < k) :
    (v - ((fun t => push t v)^[k] s).mean) ^ 2 * ((s.n + k - 1 : ℕ) : K) * k
      ≤ s.n * ((fun t => push t v)^[k] s).m2 := by
  have hk' : (1 : K) ≤ k := by exact_mod_cast hk
  have hn : (0 : K) ≤ s.n := Nat.cast_nonneg _
  have hd : (0 : K) ≤ (v - s.mean) ^ 2 := sq_nonneg _
  have hnk : (0 : K) < s.n + k := by linarith
  rw [iterate_push s v (by omega), Nat.cast_sub (by omega)]
  push_cast
  rw [sub_sub_cancel]
  generalize (v - s.mean) = d at hd ⊢
  generalize (s.n : K) = n at hn hnk ⊢
  generalize (k : K) = k at hk' hnk ⊢
  have hshare : (n + k - 1) / (n + k) ≤ 1 := by
    rw [div_le_one hnk]
    linarith
  have hcopies : 0 ≤ d ^ 2 * n ^ 2 * k / (n + k) := by positivity
  calc (d * n / (n + k)) ^ 2 * (n + k - 1) * k
      = d ^ 2 * n ^ 2 * k / (n + k) * ((n + k - 1) / (n + k)) := by field_simp
    _ ≤ d ^ 2 * n ^ 2 * k / (n + k) := mul_le_of_le_one_right hcopies hshare
    _ ≤ n * s.m2 + d ^ 2 * n ^ 2 * k / (n + k) := le_add_of_nonneg_left (mul_nonneg hn hm)
    _ = n * (s.m2 + d ^ 2 * (n * k) / (n + k)) := by ring

end Moments

end Numeric
