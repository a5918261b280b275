import HyperTrace.Proof.Alone
import HyperTrace.Proof.Confidence
import HyperTrace.Proof.Writes

/-!
# Corroboration and authority

The detector scores an anomaly before anybody has looked for corroboration, with
`corroborationNone`. The decision engine does look, but only to classify; the gate
goes by the score it was sent. This module compares the two: `cascade` is the
decision engine's cascade with the authority as a parameter, and the question is
for which anomalies it makes a difference that the parameter is not the authority
of the corroborated score.
-/

namespace HyperTrace.Proof

open HyperTrace Effect Decision

variable {K : Type} [Scalar K]

/-! ## What the decision engine knows -/

/-- The rule of a security signal within its window. -/
def signalled (cfg : Decision.Config) (w : World K) (service : String) : Option String :=
  match w.recentSecurity service with
  | none => none
  | some (seenAt, rule) =>
      if w.clock - seenAt > minutes cfg.securitySignalWindowMinutes then none else some rule

/-- Whether there was a deployment-like event within its window. -/
def deployed (cfg : Decision.Config) (w : World K) (service : String) : Bool :=
  match w.recentEvents service with
  | none => false
  | some lastEvent => decide (w.clock - lastEvent ≤ minutes cfg.recentDeploymentWindowMinutes)

/-- The corroboration the decision engine has for an anomaly of the service. -/
def corroborationOf (cfg : Decision.Config) (w : World K) (service : String) : K :=
  if (signalled cfg w service).isSome then Behaviour.corroborationHard
  else if deployed cfg w service then Behaviour.corroborationSoft
  else Behaviour.corroborationNone

/-- The verdict it comes to. -/
def classified (cfg : Decision.Config) (w : World K) (service : String) : AnomalyClassification :=
  if (signalled cfg w service).isSome then .suspectedAbuse
  else if deployed cfg w service then .likelyBugFromDeployment
  else .misconfigurationOrWaste

/-- The policy that is found, rows of equal priority coming in the order of `tie`. -/
def matched (cfg : Decision.Config) (tie : Nat → Nat) (w : World K) (m : AnomalyMessage K) :
    Except Err (Option (PolicyRow K)) :=
  firstMatch (classified cfg w m.service).value m.service (m.evidence.value.getD 0)
    (scoreConfidence m) (orderBy PolicyRow.priority tie w.policies)

/-! ## The cascade, under a given authority -/

/-- The rows written and the requests sent for an anomaly that is decided under an authority. -/
def cascade (cfg : Decision.Config) (tie : Nat → Nat) (w : World K) (m : AnomalyMessage K)
    (authority : Authority) : List (ActionRow K) × List RemediationMessage :=
  match matched cfg tie w m with
  | .ok (some policy) =>
      match RemediationAction.parse policy.action with
      | .ok action =>
          let v := verdict (Decision.isProtected m.service cfg.protectedNamespacePrefixes) action
            (requiresApproval policy.ruleDsl) authority
          ([decisionRow w.nextUuid m.id action w.clock v.1 m.service v.2],
            if v.1 = .dispatched then
              [remediationRequest w.nextUuid m.id m.service policy.action]
            else [])
      | .error _ => ([], [])
  | _ => ([], [])

/-- Handling the message, with nobody else around, does what the cascade does. -/
def ActsUnder (cfg : Decision.Config) (tie : Nat → Nat) (w : World K) (m : AnomalyMessage K)
    (authority : Authority) : Prop :=
  let w' := ((handleAnomaly cfg m).run exec (sound tie) w).2
  w'.actionsLog = w.actionsLog ++ (cascade cfg tie w m authority).1
    ∧ w'.remediationQueue = w.remediationQueue ++ (cascade cfg tie w m authority).2

section Run

variable {cfg : Decision.Config} {tie : Nat → Nat} {w w₀ : World K} {m : AnomalyMessage K}

theorem recentSecuritySignal_run (service : String) :
    (recentSecuritySignal cfg service).run exec (sound tie) w
      = (.ok (signalled cfg w service), w) := by
  refine (run_call (o := .getRecentSecurity service) (a := w.recentSecurity service) rfl).trans ?_
  unfold signalled
  cases w.recentSecurity service with
  | none => rfl
  | some entry =>
      refine (run_call (o := .now) (a := w.clock) rfl).trans ?_
      dsimp only
      split <;> rfl

theorem recentDeployment_run (service : String) :
    (recentDeployment cfg service).run exec (sound tie) w
      = (.ok (deployed cfg w service), w) := by
  refine (run_call (o := .getRecentEvent service) (a := w.recentEvents service) rfl).trans ?_
  unfold deployed
  cases w.recentEvents service with
  | none => rfl
  | some lastEvent => exact run_call (o := .now) (a := w.clock) rfl

/-- Traffic growth apart, the verdict is the decision engine's own. -/
theorem classify_run {service : String} {detectorVerdict : Option AnomalyClassification}
    (hv : detectorVerdict ≠ some .legitimateTrafficGrowth) :
    ∃ reason, (classify cfg service detectorVerdict).run exec (sound tie) w
      = (.ok (classified cfg w service, reason), w) := by
  unfold classify
  rw [if_neg hv]
  rw [run_bind (recentSecuritySignal_run service)]
  unfold classified
  cases signalled cfg w service with
  | some rule => exact ⟨_, rfl⟩
  | none =>
      dsimp only
      rw [run_bind (recentDeployment_run service)]
      cases deployed cfg w service <;> exact ⟨_, rfl⟩

theorem recordAction_run {anomalyId : Uuid} {action : RemediationAction} {res : ActionResult}
    {service mode : String}
    (hadm : w.admits (decisionRow w.nextUuid anomalyId action w.clock res service mode) = true) :
    (recordAction anomalyId action res service mode).run exec (sound tie) w
      = (.ok w.nextUuid,
          { w with
            nextUuid := w.nextUuid + 1
            actionsLog := w.actionsLog
              ++ [decisionRow w.nextUuid anomalyId action w.clock res service mode] }) := by
  let w₁ : World K := { w with nextUuid := w.nextUuid + 1 }
  refine (run_call (o := .uuid4) (a := w.nextUuid) (v := w₁) rfl).trans ?_
  refine (run_call (o := .now) (a := w.clock) (v := w₁) rfl).trans ?_
  refine (run_call (o := .insertAction _) (a := ()) (v := { w₁ with actionsLog := w₁.actionsLog
    ++ [decisionRow w.nextUuid anomalyId action w.clock res service mode] }) ?_).trans rfl
  have hadm' : w₁.admits (decisionRow w.nextUuid anomalyId action w.clock res service mode) = true :=
    hadm
  simp only [exec, faulty, World.insertAction, hadm', ↓reduceIte]
  rfl

theorem publish_run (p : Payload K) :
    (publish p).run exec (sound tie) w = (.ok (), w.enqueue p) := rfl

/-- What becomes of a matched policy. -/
theorem gate_run {ruleDsl : List (String × Json K)} {action : String} {act : RemediationAction}
    (hadm : ∀ res mode, modeAllowed mode = true →
      w.admits (decisionRow w.nextUuid m.id act w.clock res m.service mode) = true) :
    let v := verdict (Decision.isProtected m.service cfg.protectedNamespacePrefixes) act
      (requiresApproval ruleDsl) (authorityFor (scoreConfidence m))
    let (r, w') := (gate cfg m ruleDsl action act).run exec (sound tie) w
    r = .ok ()
      ∧ w'.actionsLog = w.actionsLog ++ [decisionRow w.nextUuid m.id act w.clock v.1 m.service v.2]
      ∧ w'.remediationQueue = w.remediationQueue ++ (if v.1 = .dispatched then
          [remediationRequest w.nextUuid m.id m.service action] else []) := by
  unfold gate verdict
  -- in the order of the source: protected, alert only, too low, approval, dispatch
  by_cases hprot : Decision.isProtected m.service cfg.protectedNamespacePrefixes = true
  · simp only [hprot, ↓reduceIte]
    rw [run_bind (recordAction_run (hadm _ _ rfl))]
    simp
  · simp only [hprot, Bool.false_eq_true, ↓reduceIte]
    by_cases halert : act = .alertOnly
    · simp only [halert, ↓reduceIte]
      rw [run_bind (recordAction_run (halert ▸ hadm _ _ rfl))]
      simp
    · simp only [halert, ↓reduceIte]
      by_cases hlow : authorityFor (scoreConfidence m) = .alertOnly
      · simp only [hlow, ↓reduceIte]
        rw [run_bind (recordAction_run (hadm _ _ rfl))]
        simp
      · simp only [hlow, ↓reduceIte, requiresApproval]
        by_cases happ : authorityFor (scoreConfidence m) = .approval
            ∨ (getTruthy ruleDsl "requires_approval").isSome = true
        · simp only [happ, ↓reduceIte]
          rw [run_bind (recordAction_run (hadm _ _ rfl))]
          simp
        · simp only [happ, ↓reduceIte]
          rw [run_bind (recordAction_run (hadm _ _ rfl)), publish_run]
          exact ⟨rfl, rfl, rfl⟩

/-- The policy the engine finds, whatever it looks for. -/
theorem findMatchingPolicy_eq (classification service : String) (cost confidence : K) :
    (findMatchingPolicy classification service cost confidence).run exec (sound tie) w
      = ((firstMatch classification service cost confidence
          (orderBy PolicyRow.priority tie w.policies)).map
            (Option.map fun row => (row.ruleDsl, row.action)), w) := by
  refine (run_call (o := .selectPolicies) (a := orderBy PolicyRow.priority tie w.policies)
    (v := w) rfl).trans ?_
  cases firstMatch classification service cost confidence
    (orderBy PolicyRow.priority tie w.policies) <;> rfl

theorem findMatchingPolicy_run {cl : AnomalyClassification} (hp : w.policies = w₀.policies)
    (hcl : cl = classified cfg w₀ m.service) :
    (findMatchingPolicy cl.value m.service (m.evidence.value.getD 0) (scoreConfidence m)).run exec
        (sound tie) w
      = ((matched cfg tie w₀ m).map (Option.map fun row => (row.ruleDsl, row.action)), w) := by
  rw [findMatchingPolicy_eq, hcl, hp]
  rfl

/-- The world once the classification is written: the policies are matched in it. -/
def reclassified (cfg : Decision.Config) (w : World K) (m : AnomalyMessage K)
    (reason : ClassificationReason) : World K :=
  w.updateAnomaly m.id (classified cfg w m.service)
    { m.evidence with classificationReason := some reason }

omit [Scalar K] in
/-- Every row that may be written about a recorded anomaly is admitted. -/
theorem reclassified_admits {reason : ClassificationReason}
    (hrec : ∃ a ∈ w.anomalies, a.id = m.id) (hfresh : ∀ r ∈ w.actionsLog, r.id ≠ w.nextUuid)
    {act : RemediationAction} {res : ActionResult} {mode : String}
    (hmode : modeAllowed mode = true) :
    (reclassified cfg w m reason).admits
      (decisionRow w.nextUuid m.id act w.clock res m.service mode) = true := by
  refine admits_of_resolves hfresh ⟨fun a ha => ?_, by rintro p ⟨⟩, by rintro r ⟨⟩, hmode⟩
  obtain ⟨r, hr, hid⟩ := hrec
  refine ⟨_, List.mem_map_of_mem hr, ?_⟩
  cases ha
  split <;> exact hid

/-- Handling a message comes down to deciding on the policy that is found. -/
theorem handleAnomaly_decides (hcl : m.classification ≠ some .legitimateTrafficGrowth) :
    ∃ reason, (handleAnomaly cfg m).run exec (sound tie) w
      = (lift ((matched cfg tie w m).map (Option.map fun row => (row.ruleDsl, row.action)))
          >>= decideOn cfg m).run exec (sound tie) (reclassified cfg w m reason) := by
  obtain ⟨reason, hclass⟩ : ∃ reason, (classify cfg m.service m.classification).run exec (sound tie)
      w = (.ok (classified cfg w m.service, reason), w) := classify_run hcl
  have hne : classified cfg w m.service ≠ .legitimateTrafficGrowth := by
    unfold classified
    split <;> [skip; split] <;> rintro ⟨⟩
  have hfind : (findMatchingPolicy (classified cfg w m.service).value m.service
      (m.evidence.value.getD 0) (scoreConfidence m)).run exec (sound tie)
        (reclassified cfg w m reason)
      = ((matched cfg tie w m).map (Option.map fun row => (row.ruleDsl, row.action)),
          reclassified cfg w m reason) :=
    findMatchingPolicy_run rfl rfl
  refine ⟨reason, ?_⟩
  rw [handleAnomaly_eq, run_bind hclass]
  refine (run_call (o := .updateAnomaly _ _ _) (a := ()) (v := reclassified cfg w m reason)
    rfl).trans ?_
  rw [if_neg hne]
  cases hm : matched cfg tie w m with
  | error e => rw [run_bind_error (hfind.trans (by rw [hm]; rfl))]; rfl
  | ok found => rw [run_bind (hfind.trans (by rw [hm]; rfl))]; rfl

/--
**The gate goes by the score in the message.**

The anomaly is recorded, as it is for every message the detector publishes, and the
id that is drawn is new.
-/
theorem handleAnomaly_run (hcl : m.classification ≠ some .legitimateTrafficGrowth)
    (hrec : ∃ a ∈ w.anomalies, a.id = m.id) (hfresh : ∀ r ∈ w.actionsLog, r.id ≠ w.nextUuid) :
    ActsUnder cfg tie w m (authorityFor (scoreConfidence m)) := by
  obtain ⟨reason, hrun⟩ : ∃ reason, (handleAnomaly cfg m).run exec (sound tie) w = _ :=
    handleAnomaly_decides hcl
  unfold ActsUnder cascade
  rw [hrun]
  -- no policy read, none matched, one matched with an action that parses or not
  cases hm : matched cfg tie w m with
  | error e => exact ⟨(List.append_nil _).symm, (List.append_nil _).symm⟩
  | ok found =>
      cases found with
      | none => exact ⟨(List.append_nil _).symm, (List.append_nil _).symm⟩
      | some policy =>
          simp only [Except.map, Option.map, lift_ok, Prog.bind_eq, Prog.ret_bind, decideOn]
          cases hact : RemediationAction.parse policy.action with
          | error e => exact ⟨(List.append_nil _).symm, (List.append_nil _).symm⟩
          | ok act => exact (gate_run fun _ _ => reclassified_admits hrec hfresh).2

end Run

/-! ## Where the score makes a difference -/

/-- Whether approval is required, when the anomaly gets as far as the gate. -/
def gated (cfg : Decision.Config) (tie : Nat → Nat) (w : World K) (m : AnomalyMessage K) :
    Option Bool :=
  match matched cfg tie w m with
  | .ok (some policy) =>
      match RemediationAction.parse policy.action with
      | .ok action =>
          if Decision.isProtected m.service cfg.protectedNamespacePrefixes ∨ action = .alertOnly then
            none
          else some (requiresApproval policy.ruleDsl)
      | .error _ => none
  | _ => none

/-- The two authorities lead to one verdict. -/
def SameVerdict (requiresApproval : Bool) (A A' : Authority) : Prop :=
  A = A' ∨ requiresApproval = true ∧ A ≠ .alertOnly ∧ A' ≠ .alertOnly

theorem verdict_eq_iff {action : RemediationAction} (hact : action ≠ .alertOnly) {r : Bool}
    {A B : Authority} :
    (verdict false action r A).1 = (verdict false action r B).1 ↔ SameVerdict r A B := by
  simp only [verdict, hact, SameVerdict]
  cases r <;> cases A <;> cases B <;> simp

theorem verdict_ext {action : RemediationAction} (hact : action ≠ .alertOnly) {r : Bool}
    {A B : Authority} (h : (verdict false action r A).1 = (verdict false action r B).1) :
    verdict false action r A = verdict false action r B := by
  rcases (verdict_eq_iff hact).mp h with rfl | ⟨rfl, hA, hB⟩
  · rfl
  · simp [verdict, hact, hA, hB]

/-- The authority only matters to what gets as far as the gate. -/
theorem cascade_eq_iff {cfg : Decision.Config} {tie : Nat → Nat} {w : World K}
    {m : AnomalyMessage K} {A A' : Authority} :
    cascade cfg tie w m A = cascade cfg tie w m A'
      ↔ ∀ r, gated cfg tie w m = some r → SameVerdict r A A' := by
  unfold cascade gated
  cases matched cfg tie w m with
  | error e => simp
  | ok found =>
      cases found with
      | none => simp
      | some policy =>
          dsimp only
          cases RemediationAction.parse policy.action with
          | error e => simp
          | ok action =>
              dsimp only
              -- the guards come before the authority is looked at
              by_cases hprot : Decision.isProtected m.service cfg.protectedNamespacePrefixes = true
              · simp [hprot, verdict]
              · by_cases halert : action = .alertOnly
                · simp [hprot, halert, verdict]
                · have hv := verdict_eq_iff halert (r := requiresApproval policy.ruleDsl)
                    (A := A) (B := A')
                  simp only [hprot, halert, Bool.false_eq_true, or_self, ↓reduceIte,
                    Option.some.injEq, forall_eq']
                  rw [← hv]
                  refine ⟨fun heq => ?_, fun heq => ?_⟩
                  · have hrows := (Prod.mk.inj heq).1
                    have hrow := (List.cons.inj hrows).1
                    exact congrArg ActionRow.result hrow
                  · rw [verdict_ext halert heq]

/-- Corroboration adds its weighted value to a score. -/
theorem confidence_add (scores : Scores K) (n : Nat) {corroboration : K} (h0 : 0 ≤ corroboration)
    (h1 : corroboration ≤ 1) {m : ℤ} (hm : m % 2 = 0)
    (hc : 0.20 * corroboration = (m : K) / 1000) :
    Behaviour.confidence scores corroboration n
      = Behaviour.confidence scores Behaviour.corroborationNone n + 0.20 * corroboration := by
  unfold Behaviour.confidence Behaviour.weightedSum
  dsimp only
  rw [Behaviour.clamp_of_mem h0 h1, hc, ← round3_add _ m hm,
    show (Behaviour.corroborationNone : K) = 0 from rfl,
    Behaviour.clamp_of_mem le_rfl zero_le_one]
  congr 1
  ring

/-- What the corroboration found for a service is worth. -/
def bonus (cfg : Decision.Config) (w : World K) (service : String) : K :=
  0.20 * corroborationOf cfg w service

theorem confidence_corroborated (cfg : Decision.Config) (w : World K) (service : String)
    (scores : Scores K) (n : Nat) :
    Behaviour.confidence scores (corroborationOf cfg w service) n
      = Behaviour.confidence scores Behaviour.corroborationNone n + bonus cfg w service := by
  unfold bonus corroborationOf
  split
  · exact confidence_add scores n (m := 200) (by norm_num [Behaviour.corroborationHard])
      (by norm_num [Behaviour.corroborationHard]) (by decide)
      (by norm_num [Behaviour.corroborationHard])
  · split
    · exact confidence_add scores n (m := 100) (by norm_num [Behaviour.corroborationSoft])
        (by norm_num [Behaviour.corroborationSoft]) (by decide)
        (by norm_num [Behaviour.corroborationSoft])
    · simp [Behaviour.corroborationNone]

theorem bonus_nonneg (cfg : Decision.Config) (w : World K) (service : String) :
    0 ≤ bonus cfg w service := by
  unfold bonus corroborationOf
  split <;> [skip; split] <;>
    norm_num [Behaviour.corroborationHard, Behaviour.corroborationSoft, Behaviour.corroborationNone]

/-- The two scores are on the same side of both thresholds, as far as the policy minds. -/
def Indifferent (requiresApproval : Bool) (score corroborated : K) : Prop :=
  corroborated < 0.60
    ∨ 0.60 ≤ score ∧ (corroborated < 0.85 ∨ requiresApproval = true)

theorem sameVerdict_iff {r : Bool} {score corroborated : K} (hle : score ≤ corroborated)
    (hlow : score ≤ 4 / 5) :
    SameVerdict r (Decision.authorityFor corroborated) (Decision.authorityFor score)
      ↔ Indifferent r score corroborated := by
  have hnot : ¬ score ≥ Decision.autonomousThreshold :=
    not_le.mpr (hlow.trans_lt (by norm_num [Decision.autonomousThreshold]))
  unfold SameVerdict Indifferent Decision.authorityFor
  rw [if_neg hnot]
  unfold Decision.autonomousThreshold Decision.approvalThreshold
  -- both scores against both thresholds
  by_cases hscore : (0.60 : K) ≤ score
  · have happ : ¬ corroborated < (0.60 : K) := not_lt.mpr (hscore.trans hle)
    by_cases hauto : (0.85 : K) ≤ corroborated
    · simp [hscore, hauto, happ, not_lt.mpr hauto]
    · simp [hscore, hauto, not_lt.mp happ, not_le.mp hauto]
  · by_cases happ : (0.60 : K) ≤ corroborated
    · by_cases hauto : (0.85 : K) ≤ corroborated
      · simp [hscore, hauto, not_lt.mpr happ]
      · simp [hscore, hauto, happ, not_lt.mpr happ]
    · have hauto : ¬ (0.85 : K) ≤ corroborated := by
        intro h
        exact happ (le_trans (by norm_num) h)
      simp [hscore, hauto, happ, not_le.mp happ]

/-- Wherever the anomaly gets as far as the gate, the corroboration found makes no difference. -/
def Unmoved (cfg : Decision.Config) (tie : Nat → Nat) (w : World K) (m : AnomalyMessage K) : Prop :=
  ∀ r, gated cfg tie w m = some r →
    Indifferent r (scoreConfidence m) (scoreConfidence m + bonus cfg w m.service)

/-- What handling a message does, it does under two authorities if they lead to the same. -/
theorem actsUnder_iff {cfg : Decision.Config} {tie : Nat → Nat} {w : World K} {m : AnomalyMessage K}
    {A A' : Authority} (h : ActsUnder cfg tie w m A) :
    ActsUnder cfg tie w m A' ↔ cascade cfg tie w m A' = cascade cfg tie w m A := by
  unfold ActsUnder at h ⊢
  dsimp only at h ⊢
  rw [h.1, h.2, List.append_cancel_left_eq, List.append_cancel_left_eq, Prod.ext_iff,
    eq_comm (a := (cascade cfg tie w m A).1), eq_comm (a := (cascade cfg tie w m A).2)]

/--
**When the decision engine acts under the corroborated authority.**

The flag is one the detector can raise, the anomaly is recorded, and the id that is
drawn is new. The maps, the policies and everything else are arbitrary.
-/
theorem acts_corroborated_iff {cfg : Decision.Config} {tie : Nat → Nat} {w : World K}
    {mc : CostEvent K} {f : Behaviour.Flag K} (hf : Behaviour.Flags mc f) {n : Nat}
    (hscore : f.scoreConfidence = Behaviour.confidence f.scores Behaviour.corroborationNone n)
    {id : Uuid} {now : Time} (hrec : ∃ a ∈ w.anomalies, a.id = id)
    (hfresh : ∀ r ∈ w.actionsLog, r.id ≠ w.nextUuid) :
    ActsUnder cfg tie w (f.message id now)
        (Decision.authorityFor (Behaviour.confidence f.scores (corroborationOf cfg w f.service) n))
      ↔ Unmoved cfg tie w (f.message id now) := by
  have hcl : (f.message id now).classification ≠ some .legitimateTrafficGrowth := by
    simp [Behaviour.Flag.message, hf.classification]
  rw [actsUnder_iff (handleAnomaly_run hcl hrec hfresh), cascade_eq_iff, confidence_corroborated,
    ← hscore, scoreConfidence_message]
  unfold Unmoved
  rw [scoreConfidence_message]
  refine forall_congr' fun r => imp_congr_right fun _ => ?_
  refine sameVerdict_iff (le_add_of_nonneg_right (bonus_nonneg cfg w f.service)) ?_
  rw [hscore]
  exact confidence_none_le f.scores n

/-! ## Whole runs -/

section

variable {cfg : Settings} {P : SysConfig K → SysAct K → Prop} {c : SysConfig K}

/-- Every recorded score is one without corroboration. -/
theorem recorded_le (h : (system cfg).Run P (World.empty K) c) :
    ∀ a ∈ c.world.anomalies, a.confidence ≤ 4 / 5 := by
  refine all_anomalies h ?_ ?_
  · intro e pre row he hop
    have hcalls := calls_of_suffix h he
    rw [hop] at hcalls
    obtain ⟨m, f, id, now, _, _, hf, rfl, _⟩ := anomaly_inserted_by hcalls
    -- the detector scores every flag without security evidence
    obtain ⟨n, hn⟩ := hf.confidence
    have hle : f.scoreConfidence ≤ 4 / 5 := hn ▸ confidence_none_le f.scores n
    exact hle
  · intro e pre id cl ev a _ _ hle
    exact hle

/--
**The decision engine never dispatches anything by itself.**

In no run from nothing, whatever the readings, the signals and the policies are.
-/
theorem never_autonomous (h : (system cfg).Run P (World.empty K) c) {e : SysEvent K}
    (he : e ∈ c.trace) {ma : AnomalyMessage K} (htag : e.tag = .anomaly ma) {row : ActionRow K}
    (hop : e.op = .insertAction row) : row.result ≠ .dispatched := by
  intro hres
  obtain ⟨front, pre, htr⟩ := List.append_of_mem he
  obtain ⟨a, policy, _, _, hdec, _, hauto⟩ :=
    decided_of_insert h ⟨front, htr.symm⟩ htag hop (Or.inl hres)
  have hle := recorded_le h a hdec.recorded
  have hge := (hauto hres).1
  exact absurd (hge.trans hle) (by norm_num)

end

/-! ## A strong signal -/

namespace Scenario

/-- Ten an hour is usual, with a deviation of one; eighteen stands out by eight. -/
def reading : CostEvent ℚ where
  timestamp := 0
  service := victim
  resource := ⟨"c", "shop", "n", none, none, none⟩
  costPerHour := 18
  cpuCores := none

/-- A peak of 8, decoupled from flat traffic by 8, in a bucket of 720 samples. -/
def strong : Behaviour.Flag ℚ where
  service := victim
  scores := ⟨8, 0, 0⟩
  scoreConfidence := Behaviour.confidence ⟨8, 0, 0⟩ Behaviour.corroborationNone 720
  classification := .unclassified
  mature := true
  costDelta := 8
  value := 18
  bucket := "3-0"
  resource := ⟨"c", "shop", "n", none, none, none⟩

/-- It is recorded, there was a security signal just now, and the policy is to throttle. -/
def alarmed (ruleDsl : List (String × Json ℚ)) : World ℚ :=
  { World.empty ℚ with
    nextUuid := 2
    anomalies := [strong.row 0 0]
    policies := [⟨1, "default", ruleDsl, "*", "throttle", 0⟩]
    recentSecurity := fun s => if s = victim then some (0, "Terminal shell in container") else none }

end Scenario

open Scenario in
/-- Where the policy requires approval anyway, the corroboration changes nothing. -/
theorem acts_corroborated_approval :
    ActsUnder settings.decision id (alarmed [("requires_approval", .bool true)]) (strong.message 0 0)
      (Decision.authorityFor (Behaviour.confidence strong.scores
        (corroborationOf settings.decision (alarmed [("requires_approval", .bool true)]) victim)
        720)) := by
  have hf : Behaviour.Flags reading strong := ⟨rfl, ⟨720, rfl⟩, rfl⟩
  have hrec : ∃ a ∈ (alarmed [("requires_approval", .bool true)]).anomalies, a.id = 0 :=
    ⟨strong.row 0 0, List.mem_singleton_self _, rfl⟩
  refine (acts_corroborated_iff hf rfl hrec ?_).mpr ?_
  · intro r h
    cases h
  · intro r hr
    have hrequires : gated settings.decision id (alarmed [("requires_approval", .bool true)])
        (strong.message 0 0) = some true := by decide +kernel
    rw [hrequires] at hr
    exact .inr ⟨by decide +kernel, .inr (Option.some.inj hr).symm⟩

open Scenario in
/--
**A strong corroborated mature signal waits for approval.**

Peak 8, decoupled by 8, 720 samples, a security signal just now, an unprotected
service and a policy to throttle that asks for no approval.
-/
theorem strong_signal_pending :
    Behaviour.Flags reading strong
      ∧ strong.scoreConfidence
          = Behaviour.confidence strong.scores Behaviour.corroborationNone 720
      ∧ (signalled settings.decision (alarmed []) victim).isSome = true
      ∧ gated settings.decision id (alarmed []) (strong.message 0 0) = some false
      ∧ Decision.authorityFor (Behaviour.confidence strong.scores
          (corroborationOf settings.decision (alarmed []) victim) 720) = .autonomous
      ∧ ((handleAnomaly settings.decision (strong.message 0 0)).run exec (sound id)
          (alarmed [])).2.actionsLog.map ActionRow.result = [.pendingApproval]
      ∧ ((handleAnomaly settings.decision (strong.message 0 0)).run exec (sound id)
          (alarmed [])).2.remediationQueue = []
      ∧ ¬ ActsUnder settings.decision id (alarmed []) (strong.message 0 0)
          (Decision.authorityFor (Behaviour.confidence strong.scores
            (corroborationOf settings.decision (alarmed []) victim) 720)) := by
  have hqueue : ((handleAnomaly settings.decision (strong.message 0 0)).run exec (sound id)
      (alarmed [])).2.remediationQueue = [] := by decide +kernel
  refine ⟨⟨rfl, ⟨720, rfl⟩, rfl⟩, rfl, by decide +kernel, by decide +kernel, by decide +kernel,
    by decide +kernel, hqueue, ?_⟩
  intro h
  obtain ⟨_, hsent⟩ := h
  rw [hqueue] at hsent
  revert hsent
  decide +kernel

end HyperTrace.Proof
