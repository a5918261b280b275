import HyperTrace.Behaviour.Confidence
import HyperTrace.Decision.Policy

/-!
# What a confidence score can and cannot be

The score is a sum of four clamped terms, rounded to three decimals, and the two
thresholds are compared with the rounded value. Both thresholds are an even number
of thousandths, so a tie is rounded onto them: a sum reaches a threshold from half a
thousandth below it. That one fact (`autonomous_iff`) turns every question about the
authority a score earns into one about the exact sum.
-/

namespace HyperTrace.Proof

open Behaviour

variable {K : Type} [Scalar K]

theorem confidence_eq (scores : Scores K) (corroboration : K) (n : Nat) :
    confidence scores corroboration n = round3 (weightedSum scores corroboration n) := rfl

/-- The decision engine's copy agrees with the detector's. -/
theorem authorityFor_eq (score : K) : Decision.authorityFor score = authorityFor score := rfl

/-! ## The sum -/

theorem weightedSum_nonneg (scores : Scores K) (corroboration : K) (n : Nat) :
    0 ≤ weightedSum scores corroboration n := by
  have hmag := clamp_nonneg ((scores.peak - 3) / 5)
  have hdec := clamp_nonneg ((scores.peak - scores.trafficZ) / 6)
  have hcor := clamp_nonneg corroboration
  have hmat := clamp_nonneg ((n : K) / (maturitySamples : K))
  unfold weightedSum
  dsimp only
  linarith

theorem weightedSum_le_one (scores : Scores K) (corroboration : K) (n : Nat) :
    weightedSum scores corroboration n ≤ 1 := by
  have hmag := clamp_le_one ((scores.peak - 3) / 5)
  have hdec := clamp_le_one ((scores.peak - scores.trafficZ) / 6)
  have hcor := clamp_le_one corroboration
  have hmat := clamp_le_one ((n : K) / (maturitySamples : K))
  unfold weightedSum
  dsimp only
  linarith

theorem confidence_mem (scores : Scores K) (corroboration : K) (n : Nat) :
    0 ≤ confidence scores corroboration n ∧ confidence scores corroboration n ≤ 1 := by
  have hmono := round3_mono (weightedSum_nonneg scores corroboration n)
  have hone : ((1000 : ℤ) : K) / 1000 = 1 := by norm_num
  rw [show round3 (0 : K) = 0 by simp [round3, roundHalfEven]] at hmono
  refine ⟨hmono, ?_⟩
  rw [← hone]
  exact round3_le (hone ▸ weightedSum_le_one scores corroboration n)

/-- What the detector computes passes the check of the table. -/
theorem confidence_allowed (scores : Scores K) (corroboration : K) (n : Nat) :
    confidenceAllowed (confidence scores corroboration n) = true :=
  confidenceAllowed_iff.mpr (confidence_mem scores corroboration n)

/-- Every argument moves its own term only, and all of them but traffic move it up. -/
theorem weightedSum_mono {scores scores' : Scores K} {corroboration corroboration' : K}
    {n n' : Nat} (hcost : scores.costZ ≤ scores'.costZ) (hcpu : scores.cpuZ ≤ scores'.cpuZ)
    (htraffic : scores'.trafficZ ≤ scores.trafficZ) (hcor : corroboration ≤ corroboration')
    (hn : n ≤ n') :
    weightedSum scores corroboration n ≤ weightedSum scores' corroboration' n' := by
  have hpeak : scores.peak ≤ scores'.peak := max_le_max hcost hcpu
  have hmag : clamp ((scores.peak - 3) / 5) ≤ clamp ((scores'.peak - 3) / 5) :=
    clamp_mono (div_le_div_of_nonneg_right (by linarith) (by norm_num))
  have hdec : clamp ((scores.peak - scores.trafficZ) / 6)
      ≤ clamp ((scores'.peak - scores'.trafficZ) / 6) :=
    clamp_mono (div_le_div_of_nonneg_right (by linarith) (by norm_num))
  have hmat : clamp ((n : K) / (maturitySamples : K)) ≤ clamp ((n' : K) / (maturitySamples : K)) :=
    clamp_mono (div_le_div_of_nonneg_right (Nat.cast_le.mpr hn) (Nat.cast_nonneg _))
  have hcor' := clamp_mono hcor
  unfold weightedSum
  dsimp only
  linarith

/-- **Without corroboration no score reaches the autonomous threshold.** -/
theorem confidence_none_le (scores : Scores K) (n : Nat) :
    confidence scores corroborationNone n ≤ 4 / 5 := by
  have hle : (800 : ℤ) / 1000 = (4 : K) / 5 := by norm_num
  rw [← hle]
  refine round3_le ?_
  have hmag := clamp_le_one ((scores.peak - 3) / 5)
  have hdec := clamp_le_one ((scores.peak - scores.trafficZ) / 6)
  have hmat := clamp_le_one ((n : K) / (maturitySamples : K))
  unfold weightedSum
  dsimp only
  rw [show (corroborationNone : K) = 0 from rfl, clamp_of_mem le_rfl zero_le_one]
  push_cast
  linarith

/-! ## Rounding onto a threshold -/

theorem autonomous_iff {x : K} : autonomousThreshold ≤ round3 x ↔ (0.8495 : K) ≤ x := by
  have h := le_round3_iff (x := x) (m := 850) (by decide)
  have h850 : ((850 : ℤ) : K) / 1000 = autonomousThreshold := by norm_num [autonomousThreshold]
  have hhalf : (((850 : ℤ) : K) - 1 / 2) / 1000 = 0.8495 := by norm_num
  rwa [h850, hhalf] at h

theorem approval_iff {x : K} : approvalThreshold ≤ round3 x ↔ (0.5995 : K) ≤ x := by
  have h := le_round3_iff (x := x) (m := 600) (by decide)
  have h600 : ((600 : ℤ) : K) / 1000 = approvalThreshold := by norm_num [approvalThreshold]
  have hhalf : (((600 : ℤ) : K) - 1 / 2) / 1000 = 0.5995 := by norm_num
  rwa [h600, hhalf] at h

theorem authorityFor_autonomous {x : K} :
    authorityFor x = .autonomous ↔ autonomousThreshold ≤ x := by
  unfold authorityFor
  constructor
  · intro h
    split at h
    · assumption
    · split at h <;> cases h
  · intro h
    rw [if_pos h]

/-- **The bounds of the score, its direction in every argument, and what autonomy takes.** -/
theorem confidence_bounds :
    (∀ (scores : Scores K) (corroboration : K) (n : Nat),
      0 ≤ confidence scores corroboration n ∧ confidence scores corroboration n ≤ 1)
    ∧ (∀ (scores scores' : Scores K) (corroboration corroboration' : K) (n n' : Nat),
      scores.costZ ≤ scores'.costZ → scores.cpuZ ≤ scores'.cpuZ →
      scores'.trafficZ ≤ scores.trafficZ → corroboration ≤ corroboration' → n ≤ n' →
        confidence scores corroboration n ≤ confidence scores' corroboration' n')
    ∧ (∀ (scores : Scores K) (corroboration : K) (n : Nat),
      0.85 ≤ confidence scores corroboration n →
        6.11875 ≤ max scores.costZ scores.cpuZ
          ∧ 2.99 ≤ max scores.costZ scores.cpuZ - scores.trafficZ ∧ 0.2475 ≤ corroboration)
    ∧ ∀ (scores : Scores K) (n : Nat), confidence scores 0 n ≤ 0.80 := by
  refine ⟨confidence_mem, fun scores scores' c c' n n' h1 h2 h3 h4 h5 => ?_,
    fun scores c n h => ?_, fun scores n => ?_⟩
  · exact round3_mono (weightedSum_mono h1 h2 h3 h4 h5)
  · have hsum := autonomous_iff.mp (show autonomousThreshold ≤ confidence scores c n from h)
    unfold weightedSum at hsum
    dsimp only at hsum
    have hmag1 := clamp_le_one ((scores.peak - 3) / 5)
    have hdec1 := clamp_le_one ((scores.peak - scores.trafficZ) / 6)
    have hcor1 := clamp_le_one c
    have hmat1 := clamp_le_one ((n : K) / (maturitySamples : K))
    -- with the other three terms at their most, each has to bring what is still missing
    have hmag : (0.62375 : K) ≤ (scores.peak - 3) / 5 :=
      le_of_le_clamp (by norm_num) (by linarith)
    have hdec : (2.99 / 6 : K) ≤ (scores.peak - scores.trafficZ) / 6 :=
      le_of_le_clamp (by norm_num) (by linarith)
    have hcor : (0.2475 : K) ≤ c := le_of_le_clamp (by norm_num) (by linarith)
    rw [le_div_iff₀ (by norm_num)] at hmag
    have hpeak : max scores.costZ scores.cpuZ = scores.peak := rfl
    rw [hpeak]
    exact ⟨by linarith, by linarith, hcor⟩
  · exact (confidence_none_le scores n).trans (by norm_num)

theorem confidence_bounds_abuse :
    (0.85 : ℚ) ≤ confidence ⟨8, 8, 0⟩ corroborationHard 720
      ∧ (6.11875 : ℚ) ≤ max 8 8 ∧ (0.2475 : ℚ) ≤ corroborationHard := by
  have h : (0.85 : ℚ) ≤ confidence ⟨8, 8, 0⟩ corroborationHard 720 := by decide +kernel
  obtain ⟨hpeak, -, hcor⟩ := confidence_bounds.2.2.1 ⟨8, 8, 0⟩ corroborationHard 720 h
  exact ⟨h, hpeak, hcor⟩

/-! ## Authority before and after rounding -/

/--
**Rounding changes the authority on two strips only**: from half a thousandth below a
threshold up to it, where it grants the authority of the threshold.
-/
theorem authority_of_rounded (scores : Scores K) (corroboration : K) (n : Nat) :
    authorityFor (confidence scores corroboration n) =
        (if 0.8495 ≤ weightedSum scores corroboration n
            ∧ weightedSum scores corroboration n < autonomousThreshold then .autonomous
          else if 0.5995 ≤ weightedSum scores corroboration n
            ∧ weightedSum scores corroboration n < approvalThreshold then .approval
          else authorityFor (weightedSum scores corroboration n))
      ∧ Decision.authorityFor (confidence scores corroboration n)
        = authorityFor (confidence scores corroboration n) := by
  refine ⟨?_, rfl⟩
  rw [confidence_eq]
  generalize weightedSum scores corroboration n = x
  have h1 : (0.60 : K) < 0.8495 := by norm_num
  have h2 : (0.8495 : K) < 0.85 := by norm_num
  have h3 : (0.5995 : K) < 0.60 := by norm_num
  unfold authorityFor
  simp only [ge_iff_le, autonomous_iff, approval_iff]
  unfold autonomousThreshold approvalThreshold
  split_ifs <;> first | rfl | (exfalso; grind)

/-- A mature, softly corroborated incident with these scores sums to 0.849504. -/
def borderline : Scores ℚ := ⟨7.3688, 0, 1⟩

theorem rounding_grants :
    authorityFor (confidence borderline corroborationSoft 720) = .autonomous
      ∧ authorityFor (weightedSum borderline corroborationSoft 720) = .approval
      ∧ Decision.authorityFor (confidence borderline corroborationSoft 720) = .autonomous
      ∧ Decision.authorityFor (weightedSum borderline corroborationSoft 720) = .approval := by
  decide +kernel

/-! ## Young baselines -/

/--
What the sum lacks when it is fully corroborated: how far the peak is from eight sigma,
how far traffic is from six sigma below the peak, and how many samples are to come.
-/
def missing (scores : Scores K) (n : Nat) : K :=
  0.40 * (max 0 (8.0 - scores.peak) / 5.0)
    + 0.30 * (max 0 (6.0 - (scores.peak - scores.trafficZ)) / 6.0)
    + 0.10 * (((maturitySamples : K) - (n : K)) / (maturitySamples : K))

/-- A young baseline is kept from autonomy by what is missing, which corroboration makes up for. -/
def Supervised (scores : Scores K) (corroboration : K) (n : Nat) : Prop :=
  corroboration = corroborationNone
    ∨ (corroboration = corroborationSoft ∧ 0.0505 < missing scores n)
    ∨ (corroboration = corroborationHard ∧ 0.1505 < missing scores n)

/-- What a clamped term lacks is what its argument lacks, unless the whole term is gone. -/
theorem one_sub_clamp (x d lack : K) (hd : 0 < d) (hx : 1 - x = lack / d) :
    1 - clamp x = max 0 lack / d ∨ (1 - clamp x = 1 ∧ 1 ≤ max 0 lack / d) := by
  rcases le_total lack 0 with h | h
  · have hone : 1 ≤ x := by linarith [div_nonpos_of_nonpos_of_nonneg h hd.le]
    exact .inl (by rw [clamp_of_one_le hone, max_eq_left h, sub_self, zero_div])
  rw [max_eq_right h, ← hx]
  have hle : x ≤ 1 := by linarith [div_nonneg h hd.le]
  rcases le_total x 0 with h0 | h0
  · exact .inr (by rw [clamp_of_nonpos h0]; constructor <;> linarith)
  · exact .inl (by rw [clamp_of_mem h0 hle])

/-- Less than the smaller of the two weights is lost in the sum just as it is in the scores. -/
theorem lt_missing_iff {scores : Scores K} {n : Nat} {θ : K} (hn : n < maturitySamples)
    (hθ : θ < 0.3) :
    θ < missing scores n ↔ weightedSum scores corroborationHard n < 1 - θ := by
  have hle : (n : K) ≤ (maturitySamples : K) := Nat.cast_le.mpr hn.le
  have hpos : (0 : K) < (maturitySamples : K) := Nat.cast_pos.mpr (by decide)
  have hmat : clamp ((n : K) / (maturitySamples : K)) = (n : K) / (maturitySamples : K) :=
    clamp_of_mem (by positivity) ((div_le_one hpos).mpr hle)
  have hcor : clamp (corroborationHard : K) = 1 := clamp_of_one_le le_rfl
  have hrest : (0 : K) ≤ ((maturitySamples : K) - (n : K)) / (maturitySamples : K) :=
    div_nonneg (sub_nonneg.mpr hle) hpos.le
  have hsplit : ((maturitySamples : K) - (n : K)) / (maturitySamples : K)
      = 1 - (n : K) / (maturitySamples : K) := by
    rw [sub_div, div_self hpos.ne']
  have hm0 : (0 : K) ≤ max 0 (8.0 - scores.peak) / 5.0 :=
    div_nonneg (le_max_left ..) (by norm_num)
  have hd0 : (0 : K) ≤ max 0 (6.0 - (scores.peak - scores.trafficZ)) / 6.0 :=
    div_nonneg (le_max_left ..) (by norm_num)
  have h8 : (8.0 : K) = 8 := by norm_num
  have h6 : (6.0 : K) = 6 := by norm_num
  have h5 : (5.0 : K) = 5 := by norm_num
  have hmag := one_sub_clamp ((scores.peak - 3) / 5) 5.0 (8.0 - scores.peak) (by norm_num)
    (by rw [h8, h5]; ring)
  have hdec := one_sub_clamp ((scores.peak - scores.trafficZ) / 6) 6.0
    (6.0 - (scores.peak - scores.trafficZ)) (by norm_num) (by rw [h6]; ring)
  unfold missing weightedSum
  dsimp only
  rw [hmat, hcor]
  rcases hmag with hm | ⟨hm, hm1⟩
  · rcases hdec with hd | ⟨hd, hd1⟩
    · constructor <;>
      · intro h
        linarith
    · exact iff_of_true (by linarith) (by linarith)
  · have hd' := clamp_le_one ((scores.peak - scores.trafficZ) / 6)
    exact iff_of_true (by linarith) (by linarith)

theorem weightedSum_soft (scores : Scores K) (n : Nat) :
    weightedSum scores corroborationSoft n + 0.10 = weightedSum scores corroborationHard n := by
  have hsoft : clamp (corroborationSoft : K) = 0.5 :=
    clamp_of_mem (by norm_num [corroborationSoft]) (by norm_num [corroborationSoft])
  have hhard : clamp (corroborationHard : K) = 1 := clamp_of_one_le le_rfl
  unfold weightedSum
  dsimp only
  rw [hsoft, hhard]
  ring

/-- **When a young baseline is kept from acting on its own.** -/
theorem young_supervised_iff (scores : Scores K) (corroboration : K) (n : Nat)
    (hn : n < maturitySamples)
    (hcor : corroboration = corroborationNone ∨ corroboration = corroborationSoft
      ∨ corroboration = corroborationHard) :
    (authorityFor (confidence scores corroboration n) ≠ .autonomous
        ∧ Decision.authorityFor (confidence scores corroboration n) ≠ .autonomous)
      ↔ Supervised scores corroboration n := by
  have hsoft0 : (corroborationSoft : K) ≠ corroborationNone := by
    norm_num [corroborationSoft, corroborationNone]
  have hhard0 : (corroborationHard : K) ≠ corroborationNone := by
    norm_num [corroborationHard, corroborationNone]
  have hhard5 : (corroborationHard : K) ≠ corroborationSoft := by
    norm_num [corroborationHard, corroborationSoft]
  have hsum : authorityFor (confidence scores corroboration n) ≠ .autonomous
      ↔ weightedSum scores corroboration n < 0.8495 := by
    rw [ne_eq, authorityFor_autonomous, confidence_eq, autonomous_iff, not_le]
  rw [authorityFor_eq, and_self, hsum]
  unfold Supervised
  rcases hcor with rfl | rfl | rfl
  · have hle := confidence_none_le scores n
    have hlow : (4 / 5 : K) < autonomousThreshold := by norm_num [autonomousThreshold]
    have hnot : ¬ autonomousThreshold ≤ round3 (weightedSum scores corroborationNone n) :=
      not_le.mpr (lt_of_le_of_lt hle hlow)
    rw [autonomous_iff, not_le] at hnot
    exact iff_of_true hnot (.inl rfl)
  · rw [lt_missing_iff hn (by norm_num), ← weightedSum_soft]
    simp only [hsoft0, hhard5.symm, true_and, false_and, false_or, or_false]
    constructor <;>
    · intro h
      linarith
  · rw [lt_missing_iff hn (by norm_num), lt_missing_iff hn (by norm_num)]
    simp only [hhard0, hhard5, true_and, false_and, false_or]
    constructor <;>
    · intro h
      linarith

/-- The abuse scenario on the first sample, with a security rule to corroborate it. -/
def abuse : Scores ℚ := ⟨8, 8, 0⟩

theorem young_supervised_iff_abuse :
    (authorityFor (confidence abuse corroborationSoft 10) ≠ .autonomous
        ∧ Decision.authorityFor (confidence abuse corroborationSoft 10) ≠ .autonomous)
      ↔ Supervised abuse corroborationSoft 10 :=
  young_supervised_iff abuse corroborationSoft 10 (by decide) (.inr (.inl rfl))

theorem young_autonomous :
    authorityFor (confidence abuse corroborationHard 0) = .autonomous
      ∧ Decision.authorityFor (confidence abuse corroborationHard 0) = .autonomous
      ∧ 0 < maturitySamples := by
  decide +kernel

end HyperTrace.Proof
