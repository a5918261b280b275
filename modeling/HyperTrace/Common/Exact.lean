import HyperTrace.Common.Values
import Mathlib.Analysis.Real.Sqrt
import Mathlib.Algebra.Order.Archimedean.Real.Basic

/-!
# Exact square roots

The rationals are what the development is evaluated on, but a fraction need not
have a rational root. Where the size of a z-score matters the root has to be one,
as it is over the reals.
-/

namespace HyperTrace

/-- The square root of `K` is one, wherever there is one to take. -/
class ExactSqrt (K : Type) [Scalar K] : Prop where
  sqrt_nonneg : ∀ x : K, 0 ≤ x → 0 ≤ Scalar.sqrt x
  sqrt_mul_self : ∀ x : K, 0 ≤ x → Scalar.sqrt x * Scalar.sqrt x = x

noncomputable instance : Scalar ℝ where
  sqrt := Real.sqrt

instance : ExactSqrt ℝ where
  sqrt_nonneg x _ := Real.sqrt_nonneg x
  sqrt_mul_self _ hx := Real.mul_self_sqrt hx

end HyperTrace
