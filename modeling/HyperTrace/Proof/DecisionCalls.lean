import HyperTrace.Proof.Transcript

/-!
# What the decision engine calls

The cascade of `handleAnomaly` is a pure function of four things, `verdict`; the
calls around it only find them out. `Decides` is a transcript with its verdict.
-/

namespace HyperTrace.Decision

open Effect

variable {K : Type}

/-- The result and the mode the cascade gives a matched policy. -/
def verdict (protected_ : Bool) (action : RemediationAction) (requiresApproval : Bool)
    (authority : Authority) : ActionResult × String :=
  if protected_ then (.blockedByProtectedFloor, "autonomous")
  else if action = .alertOnly then (.alertOnlyNoActionTaken, "autonomous")
  else if authority = .alertOnly then (.alertOnlyLowConfidence, "autonomous")
  else if authority = .approval ∨ requiresApproval then (.pendingApproval, "approved")
  else (.dispatched, "autonomous")

/-- Only the cascade's last case dispatches. -/
theorem verdict_dispatched {p : Bool} {a : RemediationAction} {r : Bool} {A : Authority}
    (h : (verdict p a r A).1 = .dispatched) :
    p = false ∧ a ≠ .alertOnly ∧ A = .autonomous ∧ r = false
      ∧ (verdict p a r A).2 = "autonomous" := by
  revert h
  cases p <;> cases a <;> cases A <;> cases r <;> decide

theorem verdict_pendingApproval {p : Bool} {a : RemediationAction} {r : Bool} {A : Authority}
    (h : (verdict p a r A).1 = .pendingApproval) :
    p = false ∧ a ≠ .alertOnly ∧ A ≠ .alertOnly := by
  revert h
  cases p <;> cases a <;> cases A <;> cases r <;> decide

/-- `policy.requires_approval`, as the cascade reads it. -/
def requiresApproval [Scalar K] (ruleDsl : List (String × Json K)) : Bool :=
  (getTruthy ruleDsl "requires_approval").isSome

/-- `handleAnomaly` from the matched policy on. -/
def gate [Scalar K] (cfg : Config) (m : AnomalyMessage K) (ruleDsl : List (String × Json K))
    (action : String) (act : RemediationAction) : Py K Unit := do
  if isProtected m.service cfg.protectedNamespacePrefixes then
    let _ ← recordAction m.id act .blockedByProtectedFloor m.service
    return
  if act = .alertOnly then
    let _ ← recordAction m.id act .alertOnlyNoActionTaken m.service
    return
  let authority := authorityFor (scoreConfidence m)
  if authority = .alertOnly then
    let _ ← recordAction m.id act .alertOnlyLowConfidence m.service
    return
  if authority = .approval ∨ (getTruthy ruleDsl "requires_approval").isSome then
    let _ ← recordAction m.id act .pendingApproval m.service "approved"
    return
  let actionId ← recordAction m.id act .dispatched m.service
  publish (.remediation (remediationRequest actionId m.id m.service action))

/-- What is done about the policy that was found. -/
def decideOn [Scalar K] (cfg : Config) (m : AnomalyMessage K) :
    Option (List (String × Json K) × String) → Py K Unit
  | none => return
  | some (ruleDsl, action) => do
      let act ← lift (RemediationAction.parse action)
      gate cfg m ruleDsl action act

theorem handleAnomaly_eq [Scalar K] (cfg : Config) (m : AnomalyMessage K) :
    handleAnomaly cfg m = (do
      let (classification, reason) ← classify cfg m.service m.classification
      call (.updateAnomaly m.id classification
        { m.evidence with classificationReason := some reason })
      if classification = .legitimateTrafficGrowth then
        return
      let found ← findMatchingPolicy classification.value m.service (m.evidence.value.getD 0)
        (scoreConfidence m)
      decideOn cfg m found) := rfl

section Transcripts

variable [Scalar K] (cfg : Config) (m : AnomalyMessage K)

/-- The policy the cascade goes by, of the rows it read. -/
def Matched (cl : AnomalyClassification) (rows : List (PolicyRow K)) (policy : PolicyRow K) : Prop :=
  firstMatch cl.value m.service (m.evidence.value.getD 0) (scoreConfidence m) rows
    = .ok (some policy)

/-- A transcript at the end of the cascade, with the policy that matched and the verdict. -/
inductive Decides : History K → PolicyRow K → RemediationAction → ActionResult → String →
    Prop where
  | mk {h : History K} {cl : AnomalyClassification} {ev : Evidence K} {rows : List (PolicyRow K)}
      {policy : PolicyRow K} {action : RemediationAction} {res : ActionResult} {mode : String} :
      Idle h → cl ≠ .legitimateTrafficGrowth → Matched m cl rows policy →
      RemediationAction.parse policy.action = .ok action →
      (res, mode) = verdict (isProtected m.service cfg.protectedNamespacePrefixes) action
        (requiresApproval policy.ruleDsl) (authorityFor (scoreConfidence m)) →
      Decides (⟨.selectPolicies, .ok rows⟩ :: ⟨.updateAnomaly m.id cl ev, .ok ()⟩ :: h)
        policy action res mode

/-- The transcript of a decision that was written. -/
def written (h : History K) (id : Uuid) (now : Time) (action : RemediationAction)
    (res : ActionResult) (mode : String) : History K :=
  ⟨.insertAction (decisionRow id m.id action now res m.service mode), .ok ()⟩ ::
    ⟨.now, .ok now⟩ :: ⟨.uuid4, .ok id⟩ :: h

/-- What `handleAnomaly` may call after which transcript. -/
inductive May : History K → Op K → Prop where
  | read {h : History K} {o : Op K} : acts o = false → May h o
  | update {h : History K} {cl : AnomalyClassification} {ev : Evidence K} : Idle h →
      (cl = .legitimateTrafficGrowth → m.classification = some .legitimateTrafficGrowth) →
      May h (.updateAnomaly m.id cl ev)
  | insert {h : History K} {policy : PolicyRow K} {action : RemediationAction}
      {res : ActionResult} {mode : String} {id : Uuid} {now : Time} :
      Decides cfg m h policy action res mode →
      May (⟨.now, .ok now⟩ :: ⟨.uuid4, .ok id⟩ :: h)
        (.insertAction (decisionRow id m.id action now res m.service mode))
  | publish {h t : History K} {policy : PolicyRow K} {action : RemediationAction} {mode : String}
      {id : Uuid} {now : Time} : Decides cfg m h policy action .dispatched mode →
      Attempts (.remediation (remediationRequest id m.id m.service action.value))
        (written m h id now action .dispatched mode) t →
      May t (.basicPublish (.remediation (remediationRequest id m.id m.service action.value)))

/-- With which transcript `handleAnomaly` ends, and how. -/
inductive Ends : History K → Except Err Unit → Prop where
  | undispatched {h : History K} (r : Except Err Unit) : Undispatched h → Ends h r
  | dispatched {h t : History K} {policy : PolicyRow K} {action : RemediationAction}
      {mode : String} {id : Uuid} {now : Time} {r : Except Err Unit} :
      Decides cfg m h policy action .dispatched mode →
      Published (.remediation (remediationRequest id m.id m.service action.value))
        (written m h id now action .dispatched mode) t r →
      Ends t r

end Transcripts

/-! ## `handleAnomaly` keeps to it -/

variable [Scalar K] {cfg : Config} {m : AnomalyMessage K} {h : History K}

theorem Decides.unrecorded {policy : PolicyRow K} {action : RemediationAction}
    {res : ActionResult} {mode : String} (hd : Decides cfg m h policy action res mode) :
    Unrecorded h := by
  cases hd with
  | mk hidle => exact .skip rfl (.skip rfl hidle.unrecorded)

omit [Scalar K] in
/-- The two answers of `classify` differ in what they read, not in what they may conclude. -/
theorem classify_obeys {may : History K → Op K → Prop}
    (hread : ∀ t o, acts o = false → may t o) :
    (classify cfg m.service m.classification).Obeys (anyAnswer may)
      (fun t r => Idle t ∧ match r with
        | .ok (cl, _) =>
            cl = .legitimateTrafficGrowth → m.classification = some .legitimateTrafficGrowth
        | .error _ => True) [] := by
  unfold classify
  split
  · rename_i hleg
    exact ⟨.nil, fun _ => hleg⟩
  -- from here on there are only reads
  · refine Prog.Obeys.bind (R := fun t _ => Idle t) ?_ ?_ fun t e ht => ⟨ht, trivial⟩
    · unfold recentSecuritySignal
      refine obeys_call (hread _ _ rfl) (fun entry => ?_) fun e => .cons rfl .nil
      split
      · exact .cons rfl .nil
      · refine obeys_call (hread _ _ rfl) (fun now => ?_) fun e => .cons rfl (.cons rfl .nil)
        split <;> exact .cons rfl (.cons rfl .nil)
    · intro t rule ht
      split
      · exact ⟨ht, by rintro ⟨⟩⟩
      · refine Prog.Obeys.bind (R := fun t _ => Idle t) ?_ ?_ fun t e ht => ⟨ht, trivial⟩
        · unfold recentDeployment
          refine obeys_call (hread _ _ rfl) (fun last => ?_) fun e => .cons rfl ht
          split
          · exact .cons rfl ht
          · exact obeys_call (hread _ _ rfl) (fun now => .cons rfl (.cons rfl ht))
              fun e => .cons rfl (.cons rfl ht)
        · intro t' recent ht'
          split <;> exact ⟨ht', by rintro ⟨⟩⟩

/-- A call that is no insert and lets its exception through before anything is recorded. -/
theorem ends_raised {o : Op K} (hh : Unrecorded h) (ho : ∀ row, o ≠ .insertAction row) (e : Err) :
    Ends cfg m (⟨o, .error e⟩ :: h) (.error e) :=
  .undispatched _ (hh.undispatched.cons fun row hrow => absurd hrow (ho row))

theorem recordAction_obeys {policy : PolicyRow K} {action : RemediationAction}
    {res : ActionResult} {mode : String} (hd : Decides cfg m h policy action res mode) :
    (recordAction m.id action res m.service mode).Obeys (anyAnswer (May cfg m))
      (fun t r => match r with
        | .ok id => ∃ now, t = written m h id now action res mode
        | .error e => Ends cfg m t (.error e)) h := by
  unfold recordAction
  refine obeys_call (.read rfl) (fun id => ?_)
    (ends_raised hd.unrecorded (ne_insert rfl))
  have hid : Unrecorded (⟨.uuid4, .ok id⟩ :: h) := .skip rfl hd.unrecorded
  refine obeys_call (.read rfl) (fun now => ?_) (ends_raised hid (ne_insert rfl))
  refine obeys_call (.insert hd) (fun _ => ⟨now, rfl⟩) fun e => ?_
  have hnow : Unrecorded (⟨.now, .ok now⟩ :: ⟨.uuid4, .ok id⟩ :: h) :=
    .skip rfl hid
  exact .undispatched _ (hnow.undispatched.cons fun row hrow hres => rfl)

/-- A decision that is not a dispatch ends with its row. -/
theorem recordOnly_obeys {policy : PolicyRow K} {action : RemediationAction}
    {res : ActionResult} {mode : String} (hd : Decides cfg m h policy action res mode)
    (hres : res ≠ .dispatched) :
    ((recordAction m.id action res m.service mode) >>= fun _ => pure ()).Obeys
      (anyAnswer (May cfg m)) (Ends cfg m) h := by
  refine Prog.Obeys.bind (recordAction_obeys hd) ?_ fun t e he => he
  intro t id hx
  obtain ⟨now, ht⟩ := hx
  rw [ht]
  have hread : Unrecorded (⟨.now, .ok now⟩ :: ⟨.uuid4, .ok id⟩ :: h) :=
    .skip rfl (.skip rfl hd.unrecorded)
  refine .undispatched _ (.cons ?_ hread.undispatched)
  intro row hrow hdis
  cases hrow
  exact absurd hdis hres

/-- What `findMatchingPolicy` read, and the row it chose. -/
theorem findMatchingPolicy_obeys {cl : AnomalyClassification} (hh : Unrecorded h) :
    (findMatchingPolicy cl.value m.service (m.evidence.value.getD 0) (scoreConfidence m)).Obeys
      (anyAnswer (May cfg m))
      (fun t r => match r with
        | .ok (some (ruleDsl, action)) => ∃ rows policy,
            (ruleDsl, action) = (policy.ruleDsl, policy.action) ∧ Matched m cl rows policy
              ∧ t = ⟨.selectPolicies, .ok rows⟩ :: h
        | .ok none => Unrecorded t
        | .error e => Ends cfg m t (.error e)) h := by
  unfold findMatchingPolicy
  refine obeys_call (.read rfl) (fun rows => ?_) (ends_raised hh (ne_insert rfl))
  have hsel : Unrecorded (⟨.selectPolicies, .ok rows⟩ :: h) := .skip rfl hh
  refine obeys_lift (fun found hfound => ?_) fun e _ => .undispatched _ hsel.undispatched
  cases found with
  | none => exact hsel
  | some policy => exact ⟨rows, policy, rfl, hfound, rfl⟩

/-- The rest of the cascade, one early return after the other. -/
theorem gate_obeys {cl : AnomalyClassification} {ev : Evidence K} {rows : List (PolicyRow K)}
    {policy : PolicyRow K} {act : RemediationAction} (hidle : Idle h)
    (hcl : cl ≠ .legitimateTrafficGrowth) (hpolicy : Matched m cl rows policy)
    (hact : RemediationAction.parse policy.action = .ok act) :
    (gate cfg m policy.ruleDsl policy.action act).Obeys (anyAnswer (May cfg m)) (Ends cfg m)
      (⟨.selectPolicies, .ok rows⟩ :: ⟨.updateAnomaly m.id cl ev, .ok ()⟩ :: h) := by
  -- every exit records what the verdict says
  have hdecides : ∀ {res mode}, (res, mode) = verdict
      (isProtected m.service cfg.protectedNamespacePrefixes) act
      (requiresApproval policy.ruleDsl) (authorityFor (scoreConfidence m)) →
      Decides cfg m (⟨.selectPolicies, .ok rows⟩ :: ⟨.updateAnomaly m.id cl ev, .ok ()⟩ :: h)
        policy act res mode := fun hv => .mk hidle hcl hpolicy hact hv
  unfold gate
  split
  · rename_i hprot
    exact recordOnly_obeys (hdecides (by simp [verdict, hprot])) (by simp)
  · rename_i hprot
    split
    · rename_i halert
      exact recordOnly_obeys (hdecides (by simp [verdict, hprot, halert])) (by simp)
    · rename_i halert
      dsimp only
      split
      · rename_i hlow
        exact recordOnly_obeys (hdecides (by simp [verdict, hprot, halert, hlow])) (by simp)
      · rename_i hlow
        split
        · rename_i happ
          exact recordOnly_obeys
            (hdecides (by simp [verdict, hprot, halert, hlow, requiresApproval, happ])) (by simp)
        · rename_i happ
          have hd := @hdecides .dispatched "autonomous"
            (by simp [verdict, hprot, halert, hlow, requiresApproval, happ])
          refine Prog.Obeys.bind (recordAction_obeys hd) ?_ fun t e he => he
          intro t id hx
          obtain ⟨now, ht⟩ := hx
          rw [ht, ← RemediationAction.value_of_parse hact]
          exact (publish_obeys fun t ht => .publish hd ht).mono fun t r hr => .dispatched hd hr

/-- **`handleAnomaly` makes only the calls it may, and ends as it should.** -/
theorem handleAnomaly_obeys (cfg : Config) (m : AnomalyMessage K) :
    (handleAnomaly cfg m).Obeys (anyAnswer (May cfg m)) (Ends cfg m) [] := by
  rw [handleAnomaly_eq]
  refine Prog.Obeys.bind (classify_obeys fun t o ho => .read ho) ?_ ?_
  · intro t h hx
    obtain ⟨cl, reason⟩ := h
    obtain ⟨hidle, hleg⟩ := hx
    refine obeys_call (.update hidle hleg) (fun _ => ?_)
      (ends_raised hidle.unrecorded (ne_insert rfl))
    split
    · exact .undispatched _ (Unrecorded.skip rfl hidle.unrecorded).undispatched
    · rename_i hcl
      have hupd : ∀ ev, Unrecorded (⟨.updateAnomaly m.id cl ev, .ok ()⟩ :: (t ++ [])) :=
        fun ev => .skip rfl hidle.unrecorded
      refine Prog.Obeys.bind (findMatchingPolicy_obeys (hupd _)) ?_ fun t e he => he
      rintro t' (_ | ⟨ruleDsl, action⟩) hmatch
      · exact .undispatched _ hmatch.undispatched
      · obtain ⟨rows, policy, heq, hpolicy, ht'⟩ := hmatch
        cases heq
        rw [ht']
        refine obeys_lift (fun act hact => ?_) fun e _ =>
          .undispatched _ (Unrecorded.skip rfl (hupd _)).undispatched
        exact gate_obeys hidle hcl hpolicy hact
  · intro t e h
    obtain ⟨hidle, _⟩ := h
    exact .undispatched _ hidle.unrecorded.undispatched

end HyperTrace.Decision
