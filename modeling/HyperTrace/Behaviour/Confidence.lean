import HyperTrace.Common.Messaging

/-!
# Confidence, and the authority it earns

`confidence.py` of the detector. Every term of the score is clamped to `[0, 1]`
before it is weighted.
-/

namespace HyperTrace

/-- The strongest resource or cost signal; traffic is deliberately excluded. -/
def Scores.peak {K : Type} [Scalar K] (s : Scores K) : K := max s.costZ s.cpuZ

namespace Behaviour

variable {K : Type} [Scalar K]

def maturitySamples : Nat := 720

def corroborationNone : K := 0
def corroborationSoft : K := 0.5
def corroborationHard : K := 1
def autonomousThreshold : K := 0.85
def approvalThreshold : K := 0.60

def clamp (value : K) : K := max 0 (min 1 value)

/-- The sum that `confidence` rounds. -/
def weightedSum (scores : Scores K) (corroboration : K) (nSamples : Nat) : K :=
  let peak := scores.peak
  let magnitude := clamp ((peak - 3) / 5)
  let decoupling := clamp ((peak - scores.trafficZ) / 6)
  let maturity := clamp ((nSamples : K) / (maturitySamples : K))
  0.40 * magnitude + 0.30 * decoupling + 0.20 * clamp corroboration + 0.10 * maturity

def confidence (scores : Scores K) (corroboration : K) (nSamples : Nat) : K :=
  round3 (weightedSum scores corroboration nSamples)

def authorityFor (score : K) : Authority :=
  if score ≥ autonomousThreshold then .autonomous
  else if score ≥ approvalThreshold then .approval
  else .alertOnly

theorem clamp_le_one (x : K) : clamp x ≤ 1 := max_le zero_le_one (min_le_left ..)

theorem clamp_nonneg (x : K) : 0 ≤ clamp x := le_max_left ..

theorem clamp_mono {x y : K} (h : x ≤ y) : clamp x ≤ clamp y :=
  max_le_max_left 0 (min_le_min_left 1 h)

/-- A term that is worth something is worth no more than what it was taken from. -/
theorem le_of_le_clamp {a x : K} (ha : 0 < a) (h : a ≤ clamp x) : a ≤ x := by
  rcases le_max_iff.mp h with h0 | h1
  · exact absurd h0 (not_le.mpr ha)
  · exact h1.trans (min_le_right ..)

theorem clamp_of_nonpos {x : K} (h : x ≤ 0) : clamp x = 0 :=
  max_eq_left ((min_le_right ..).trans h)

theorem clamp_of_one_le {x : K} (h : 1 ≤ x) : clamp x = 1 := by
  rw [clamp, min_eq_left h, max_eq_right zero_le_one]

theorem clamp_of_mem {x : K} (h0 : 0 ≤ x) (h1 : x ≤ 1) : clamp x = x := by
  rw [clamp, min_eq_right h1, max_eq_right h0]

end Behaviour

end HyperTrace
