import HyperTrace.Proof.Transcript

/-!
# What the executor calls

`Contains` and `Reverses` say after which transcript a patch is sent, and which
one; `Answers` which outcome is recorded after which transcript; `Ends` how
`handle` ends. `handle_obeys` is the one place where `handle` is unfolded.
-/

namespace HyperTrace.Executor

open Effect

variable {K : Type}

/-- The patch a rollback reference determines; nothing for a kind it does not know. -/
def reversal (ref : Json K) : Except Err (Option (Op K)) := do
  let kind ← ref.subscript "kind"
  if kind.isStr "deployment_cpu_limit" then
    let container ← refText ref "container"
    let previous ← ref.subscript "previous_cpu_limit"
    let deployment ← refText ref "deployment"
    let ns ← refText ref "namespace"
    return some (.patchDeployment deployment ns container previous)
  if kind.isStr "hpa_max_replicas" then
    let previous ← ref.subscript "previous_max_replicas"
    let hpa ← refText ref "hpa"
    let ns ← refText ref "namespace"
    return some (.patchHpa hpa ns previous)
  return none

@[simp] theorem reversal_throttleRef (ns deployment container : String) (limit : Option String) :
    reversal (throttleRef ns deployment container limit : Json K) =
      .ok (some (.patchDeployment deployment ns container (jsonOfText limit))) := rfl

@[simp] theorem reversal_freezeRef (ns hpa : String) (max : Nat) :
    reversal (freezeRef ns hpa max : Json K) = .ok (some (.patchHpa hpa ns (.int max))) := rfl

section Transcripts

variable (cfg : Config) (req : Request)

/-- The rate limit was checked at `now`, and neither ceiling had been reached. -/
inductive Admitted (now : Time) : History K → Prop where
  | mk (n₁ n₂ : Nat) : (n₁ : ℤ) < cfg.maxActionsPerWindow → (n₂ : ℤ) < cfg.maxActionsPerService →
      Admitted now
        [⟨.countActions (now - minutes cfg.serviceRateLimitWindowMinutes) executedResults
            (some req.service), .ok n₂⟩,
          ⟨.countActions (now - minutes cfg.rateLimitWindowMinutes) executedResults none, .ok n₁⟩,
          ⟨.now, .ok now⟩]

/-- A throttle or freeze is about to patch, and would leave this reference behind. -/
inductive Contains : History K → Op K → Json K → Prop where
  | throttle {now : Time} {h : History K} {ns name : String} {d : Deployment} :
      req.action = RemediationAction.throttle.value → isProtected cfg req.service = false →
      Admitted cfg req now h → splitService req.service = (ns, name) →
      d.first.cpuLimit ≠ some throttleCpuLimit →
      Contains (⟨.readDeployment name ns, .ok d⟩ :: h)
        (.patchDeployment name ns d.first.name (.str throttleCpuLimit))
        (throttleRef ns name d.first.name d.first.cpuLimit)
  | freeze {now : Time} {h : History K} {ns name : String} {hpas : List Hpa} {hpa : Hpa}
      {n : Nat} :
      req.action = RemediationAction.freezeScaling.value → isProtected cfg req.service = false →
      Admitted cfg req now h → splitService req.service = (ns, name) →
      hpas.find? (fun h => h.target = name) = some hpa → hpa.currentReplicas = some n →
      n ≠ 0 → hpa.maxReplicas ≠ n →
      Contains (⟨.listHpas ns, .ok hpas⟩ :: h) (.patchHpa hpa.name ns (.int n))
        (freezeRef ns hpa.name hpa.maxReplicas)

/-- The row's deadline, if it has one, was found not to have passed. -/
inductive InWindow (row : ActionRow K) (h : History K) : History K → Prop where
  | unlimited : row.rollbackDeadline = none → InWindow row h h
  | checked (now d : Time) : row.rollbackDeadline = some d → now ≤ d →
      InWindow row h (⟨.now, .ok now⟩ :: h)

section Reversal

variable [Scalar K]

/-- The row a rollback request names was loaded, and is still in its window. -/
inductive Loaded (row : ActionRow K) (prior : Json K) : History K → Prop where
  | mk {t : Uuid} {h : History K} : req.action = "rollback" → req.targetActionId = some t →
      priorState row = some prior → InWindow row [⟨.actionById t, .ok (some row)⟩] h →
      Loaded row prior h

/-- A rollback of `row` is about to patch. -/
inductive Reverses (row : ActionRow K) : History K → Op K → Prop where
  | mk {prior : Json K} {h : History K} {o : Op K} : Loaded req row prior h →
      reversal prior = .ok (some o) → Reverses row h o

/-- Which outcome is recorded after which transcript. -/
inductive Answers : History K → ActionResult → Recorded K → Prop where
  | noRow {t : Uuid} : req.action = "rollback" → req.targetActionId = some t →
      Answers [⟨.actionById t, .ok none⟩] .rollbackFailedNoReference {}
  | noReference {t : Uuid} {row : ActionRow K} : req.action = "rollback" →
      req.targetActionId = some t → priorState row = none →
      Answers [⟨.actionById t, .ok (some row)⟩] .rollbackFailedNoReference {}
  | expired {t : Uuid} {row : ActionRow K} {now d : Time} : req.action = "rollback" →
      req.targetActionId = some t → row.rollbackDeadline = some d → d < now →
      Answers [⟨.now, .ok now⟩, ⟨.actionById t, .ok (some row)⟩] .rollbackWindowExpired
        { rollbackRef := some row.id }
  | reversed {row : ActionRow K} {h : History K} {c : SysCall K} : Reverses req row h c.op →
      c.isOk = true → Answers (c :: h) .rolledBack { rollbackRef := some row.id }
  | unknownKind {row : ActionRow K} {prior : Json K} {h : History K} :
      Loaded req row prior h → reversal prior = .ok none →
      Answers h .failed { rollbackRef := some row.id }
  | floor : req.action ≠ "rollback" → isProtected cfg req.service = true →
      Answers [] .blockedByProtectedFloor {}
  | global {now : Time} {n : Nat} : req.action ≠ "rollback" →
      cfg.maxActionsPerWindow ≤ (n : ℤ) →
      Answers
        [⟨.countActions (now - minutes cfg.rateLimitWindowMinutes) executedResults none, .ok n⟩,
          ⟨.now, .ok now⟩]
        .blockedByGlobalRateLimit {}
  | perService {now : Time} {n₁ n₂ : Nat} : req.action ≠ "rollback" →
      cfg.maxActionsPerService ≤ (n₂ : ℤ) →
      Answers
        [⟨.countActions (now - minutes cfg.serviceRateLimitWindowMinutes) executedResults
            (some req.service), .ok n₂⟩,
          ⟨.countActions (now - minutes cfg.rateLimitWindowMinutes) executedResults none, .ok n₁⟩,
          ⟨.now, .ok now⟩]
        .blockedByPerServiceRateLimit {}
  | contained {h : History K} {c : SysCall K} {ref : Json K} (reason : String) :
      Contains cfg req h c.op ref → c.isOk = true →
      Answers (c :: h) .executed
        { priorState := some ref, appliedState := some reason, setRollbackDeadline := true }
  | noDeployment {now : Time} {h : History K} {ns name : String} (reason : String) :
      req.action = RemediationAction.throttle.value → Admitted cfg req now h →
      Answers (⟨.readDeployment name ns, .error (.api 404)⟩ :: h) .noOp
        { appliedState := some reason }
  | throttled {now : Time} {h : History K} {ns name : String} {d : Deployment} (reason : String) :
      req.action = RemediationAction.throttle.value → Admitted cfg req now h →
      Answers (⟨.readDeployment name ns, .ok d⟩ :: h) .noOp { appliedState := some reason }
  | frozen {now : Time} {h : History K} {ns : String} {hpas : List Hpa} (reason : String) :
      req.action = RemediationAction.freezeScaling.value → Admitted cfg req now h →
      Answers (⟨.listHpas ns, .ok hpas⟩ :: h) .noOp { appliedState := some reason }
  | unsupported {now : Time} {h : History K} : req.action ≠ "rollback" →
      Admitted cfg req now h → Answers h (.unsupportedAction req.action) {}

/-- What `handle` may call after which transcript. -/
inductive May (m : RemediationMessage) : History K → Op K → Prop where
  | read {h : History K} {o : Op K} : acts o = false → May m h o
  | patch {req : Request} {h : History K} {o : Op K} {ref : Json K} :
      parseRequest m = .ok req → Contains cfg req h o ref → May m h o
  | reverse {req : Request} {h : History K} {o : Op K} {row : ActionRow K} :
      parseRequest m = .ok req → Reverses req row h o → May m h o
  | insert {req : Request} {h : History K} {now : Time} {id : Uuid} {res : ActionResult}
      {extra : Recorded K} : parseRequest m = .ok req → Answers cfg req h res extra →
      May m (⟨.uuid4, .ok id⟩ :: ⟨.now, .ok now⟩ :: h)
        (.insertAction (outcomeRow cfg id now req res extra))

/-- A 404 on the read of a Deployment, the one exception `handle` does not let through. -/
def isMissing (c : SysCall K) : Prop :=
  ∃ name ns, c = ⟨.readDeployment name ns, .error (.api 404)⟩

/-- With which transcript `handle` ends, and how. -/
inductive Ends (m : RemediationMessage) : History K → Except Err Unit → Prop where
  | malformed {e : Err} : parseRequest m = .error e → Ends m [] (.error e)
  | noTarget {req : Request} {e : Err} : parseRequest m = .ok req → req.action = "rollback" →
      req.targetActionId = none → Ends m [] (.error e)
  | badReference {req : Request} {row : ActionRow K} {prior : Json K} {h : History K} {e : Err} :
      parseRequest m = .ok req → Loaded req row prior h → reversal prior = .error e →
      Ends m h (.error e)
  | raised {o : Op K} {h : History K} {e : Err} : Idle h →
      (∀ row, o ≠ .insertAction row) → ¬ isMissing ⟨o, .error e⟩ → isBroker o = false →
      Ends m (⟨o, .error e⟩ :: h) (.error e)
  | recorded {req : Request} {h : History K} {now : Time} {id : Uuid} {res : ActionResult}
      {extra : Recorded K} (r : Except Err Unit) : parseRequest m = .ok req →
      Answers cfg req h res extra →
      Ends m (⟨.insertAction (outcomeRow cfg id now req res extra), r⟩ ::
        ⟨.uuid4, .ok id⟩ :: ⟨.now, .ok now⟩ :: h) r

end Reversal

end Transcripts

theorem parseRequest_ok {m : RemediationMessage} {req : Request}
    (h : parseRequest m = .ok req) :
    m.actionId = some req.decisionId ∧ m.service = some req.service ∧ m.action = some req.action
      ∧ req.anomalyId = m.anomalyId ∧ req.mode = m.mode.getD "autonomous"
      ∧ req.targetActionId = m.targetActionId := by
  obtain ⟨actionId, anomalyId, service, action, mode, target⟩ := m
  cases actionId with
  | none => cases h
  | some id =>
      cases service with
      | none => cases h
      | some s =>
          cases action with
          | none => cases h
          | some a =>
              cases h
              exact ⟨rfl, rfl, rfl, rfl, rfl, rfl⟩

/-! ## Nothing is recorded before the outcome is -/

variable {cfg : Config} {req : Request} {h : History K}

theorem Admitted.idle {now : Time} (ha : Admitted cfg req now h) : Idle h := by
  cases ha
  exact .cons rfl (.cons rfl (.cons rfl .nil))

/-- Up to its patch a throttle or freeze has only read. -/
theorem Contains.idle {o : Op K} {ref : Json K} (hc : Contains cfg req h o ref) : Idle h := by
  cases hc with
  | throttle _ _ ha => exact .cons rfl ha.idle
  | freeze _ _ ha => exact .cons rfl ha.idle

theorem Contains.action_ne {o : Op K} {ref : Json K} (hc : Contains cfg req h o ref) :
    req.action ≠ "rollback" := by
  cases hc with
  | throttle hact => rw [hact]; decide
  | freeze hact => rw [hact]; decide

theorem Contains.isPatch {o : Op K} {ref : Json K} (hc : Contains cfg req h o ref) :
    Proof.isPatch o = true := by
  cases hc <;> rfl

/-- A reference determines a patch of its own namespace, or nothing. -/
theorem reversal_cases {ref : Json K} {o : Op K} (hr : reversal ref = .ok (some o)) :
    ∃ ns, refText ref "namespace" = .ok ns
      ∧ ((∃ deployment container previous, o = .patchDeployment deployment ns container previous)
        ∨ ∃ hpa previous, o = .patchHpa hpa ns previous) := by
  obtain ⟨kind, _, hr⟩ := bind_ok hr
  split at hr
  · obtain ⟨container, _, hr⟩ := bind_ok hr
    obtain ⟨previous, _, hr⟩ := bind_ok hr
    obtain ⟨deployment, _, hr⟩ := bind_ok hr
    obtain ⟨ns, hns, hr⟩ := bind_ok hr
    cases hr
    exact ⟨ns, hns, Or.inl ⟨deployment, container, previous, rfl⟩⟩
  · split at hr
    · obtain ⟨previous, _, hr⟩ := bind_ok hr
      obtain ⟨hpa, _, hr⟩ := bind_ok hr
      obtain ⟨ns, hns, hr⟩ := bind_ok hr
      cases hr
      exact ⟨ns, hns, Or.inr ⟨hpa, previous, rfl⟩⟩
    · cases hr

variable [Scalar K]

theorem Loaded.idle {row : ActionRow K} {prior : Json K} (hl : Loaded req row prior h) :
    Idle h := by
  obtain ⟨_, _, _, hw⟩ := hl
  cases hw with
  | unlimited _ => exact .cons rfl .nil
  | checked => exact .cons rfl (.cons rfl .nil)

theorem Reverses.idle {row : ActionRow K} {o : Op K} (hr : Reverses req row h o) : Idle h := by
  obtain ⟨hl, _⟩ := hr
  exact hl.idle

theorem Reverses.isPatch {row : ActionRow K} {o : Op K} (hr : Reverses req row h o) :
    Proof.isPatch o = true := by
  obtain ⟨_, hr⟩ := hr
  obtain ⟨_, _, ⟨_, _, _, rfl⟩ | ⟨_, _, rfl⟩⟩ := reversal_cases hr <;> rfl

omit [Scalar K] in
theorem ne_insert_of_isPatch {o : Op K} (ho : Proof.isPatch o = true) (row : ActionRow K) :
    o ≠ .insertAction row := by
  intro h
  subst h
  cases ho

/-- Either the newest call is an answered patch, and that is recorded, or nothing was done. -/
theorem Answers.patched_or_idle {res : ActionResult} {extra : Recorded K}
    (ha : Answers cfg req h res extra) :
    (∃ c h₀, h = c :: h₀ ∧ Proof.isPatch c.op = true ∧ c.isOk = true ∧ Idle h₀
        ∧ (res = .executed ∧ req.action ≠ "rollback" ∨ res = .rolledBack ∧ req.action = "rollback"))
      ∨ Idle h ∧ executedResults.contains res = false := by
  cases ha with
  | contained _ hc hok =>
      exact Or.inl ⟨_, _, rfl, hc.isPatch, hok, hc.idle, Or.inl ⟨rfl, hc.action_ne⟩⟩
  | reversed hr hok =>
      refine Or.inl ⟨_, _, rfl, hr.isPatch, hok, hr.idle, Or.inr ⟨rfl, ?_⟩⟩
      obtain ⟨⟨hroll, _⟩, _⟩ := hr
      exact hroll
  -- the refusals: each comes after reads only
  | noRow => exact Or.inr ⟨.cons rfl .nil, rfl⟩
  | noReference => exact Or.inr ⟨.cons rfl .nil, rfl⟩
  | expired => exact Or.inr ⟨.cons rfl (.cons rfl .nil), rfl⟩
  | unknownKind hl => exact Or.inr ⟨hl.idle, rfl⟩
  | floor => exact Or.inr ⟨.nil, rfl⟩
  | global => exact Or.inr ⟨.cons rfl (.cons rfl .nil), rfl⟩
  | perService => exact Or.inr ⟨.cons rfl (.cons rfl (.cons rfl .nil)), rfl⟩
  | noDeployment _ _ hadm => exact Or.inr ⟨.cons rfl hadm.idle, rfl⟩
  | throttled _ _ hadm => exact Or.inr ⟨.cons rfl hadm.idle, rfl⟩
  | frozen _ _ hadm => exact Or.inr ⟨.cons rfl hadm.idle, rfl⟩
  | unsupported _ hadm => exact Or.inr ⟨hadm.idle, rfl⟩

theorem Answers.unrecorded {res : ActionResult} {extra : Recorded K}
    (ha : Answers cfg req h res extra) : Unrecorded h := by
  rcases ha.patched_or_idle with ⟨c, h₀, rfl, hpatch, _, hidle, _⟩ | ⟨hidle, _⟩
  · exact .cons (ne_insert_of_isPatch hpatch) hidle.unrecorded
  · exact hidle.unrecorded

/-! ## `handle` keeps to it -/

variable {m : RemediationMessage} {res : ActionResult} {extra : Recorded K}

/-- A call that is not an insert and lets its exception through. -/
theorem ends_raised {o : Op K} (hh : Idle h) (ho : ∀ row, o ≠ .insertAction row)
    (hm : ∀ name ns, o ≠ .readDeployment name ns) (hb : isBroker o = false) (e : Err) :
    Ends cfg m (⟨o, .error e⟩ :: h) (.error e) := by
  refine .raised hh ho ?_ hb
  intro hx
  obtain ⟨name, ns, heq⟩ := hx
  exact hm name ns (congrArg Call.op heq)

theorem record_obeys (hp : parseRequest m = .ok req) (ha : Answers cfg req h res extra) :
    (record cfg req res extra).Obeys (anyAnswer (May cfg m)) (Ends cfg m) h := by
  refine obeys_local rfl (.read rfl) fun now => ?_
  refine obeys_local rfl (.read rfl) fun id => ?_
  exact obeys_last (.insert hp ha) fun r => .recorded r hp ha

/-- What `rollback` leaves `handle` to record. -/
theorem rollback_obeys {row : ActionRow K} {prior : Json K} (hp : parseRequest m = .ok req)
    (hl : Loaded req row prior h) :
    (rollback (Json.dumps prior)).Obeys (anyAnswer (May cfg m))
      (fun t r => match r with
        | .ok outcome => Answers cfg req t outcome.status { rollbackRef := some row.id }
        | .error e => Ends cfg m t (.error e)) h := by
  have hraise : ∀ {o : Op K} (e : Err), Proof.isPatch o = true →
      Ends cfg m (⟨o, .error e⟩ :: h) (.error e) := by
    intro o e ho
    refine ends_raised hl.idle (ne_insert_of_isPatch ho) ?_ ?_ e
    · intro name ns hx
      subst hx
      cases ho
    · cases o <;> first | rfl | cases ho
  have hbad : ∀ {e : Err}, reversal prior = .error e → Ends cfg m h (.error e) :=
    fun he => .badReference hp hl he
  -- each field is read in turn; where one is missing the reference is bad
  unfold rollback
  refine obeys_lift (fun kind hk => ?_) fun e hk => hbad ?_
  · rw [Json.loads_dumps] at hk ⊢
    split
    · rename_i hkind
      refine obeys_lift (fun container hc => ?_) fun e hc => hbad ?_
      · refine obeys_lift (fun previous hpr => ?_) fun e hpr => hbad ?_
        · refine obeys_lift (fun deployment hd => ?_) fun e hd => hbad ?_
          · refine obeys_lift (fun ns hns => ?_) fun e hns => hbad ?_
            · have hrev :
                  reversal prior = .ok (some (.patchDeployment deployment ns container previous)) := by
                simp [reversal, hk, hkind, hc, hpr, hd, hns, bind, Except.bind, pure, Except.pure]
              refine obeys_call (.reverse hp ⟨hl, hrev⟩) (fun _ => ?_) fun e => hraise e rfl
              exact .reversed ⟨hl, hrev⟩ rfl
            · simp [reversal, hk, hkind, hc, hpr, hd, hns, bind, Except.bind]
          · simp [reversal, hk, hkind, hc, hpr, hd, bind, Except.bind]
        · simp [reversal, hk, hkind, hc, hpr, bind, Except.bind]
      · simp [reversal, hk, hkind, hc, bind, Except.bind]
    · rename_i hkind
      split
      · rename_i hkind'
        refine obeys_lift (fun previous hpr => ?_) fun e hpr => hbad ?_
        · refine obeys_lift (fun hpa hh => ?_) fun e hh => hbad ?_
          · refine obeys_lift (fun ns hns => ?_) fun e hns => hbad ?_
            · have hrev : reversal prior = .ok (some (.patchHpa hpa ns previous)) := by
                simp [reversal, hk, hkind, hkind', hpr, hh, hns, bind, Except.bind, pure, Except.pure]
              refine obeys_call (.reverse hp ⟨hl, hrev⟩) (fun _ => ?_) fun e => hraise e rfl
              exact .reversed ⟨hl, hrev⟩ rfl
            · simp [reversal, hk, hkind, hkind', hpr, hh, hns, bind, Except.bind]
          · simp [reversal, hk, hkind, hkind', hpr, hh, bind, Except.bind]
        · simp [reversal, hk, hkind, hkind', hpr, bind, Except.bind]
      · rename_i hkind'
        exact .unknownKind hl (by
          simp [reversal, hk, hkind, hkind', bind, Except.bind, pure, Except.pure])
  · rw [Json.loads_dumps] at hk
    simp [reversal, hk, bind, Except.bind]

/-- The reading of a Deployment only raises what `handle` lets through. -/
theorem readOrMissing_obeys {name ns : String} (hidle : Idle h) :
    (readOrMissing name ns).Obeys (anyAnswer (May cfg m))
      (fun t r => match r with
        | .ok (some d) => t = ⟨.readDeployment name ns, .ok d⟩ :: h
        | .ok none => t = ⟨.readDeployment name ns, .error (.api 404)⟩ :: h
        | .error e => Ends cfg m t (.error e)) h := by
  refine Prog.obeys_tryCatch.mpr (obeys_call (.read rfl) (fun d => rfl) fun e => ?_)
  by_cases he : e = .api 404
  · subst he
    exact rfl
  · simp only [he, ↓reduceIte, Prog.throw_eq]
    refine .raised hidle (ne_insert rfl) ?_ rfl
    intro hx
    obtain ⟨name', ns', heq⟩ := hx
    cases heq
    exact he rfl

/-- What a throttle or a freeze leaves `handle` to record. -/
def Outcomes (cfg : Config) (m : RemediationMessage) (req : Request) (t : History K) :
    Except Err (Outcome K) → Prop
  | .ok outcome => Answers cfg req t outcome.status
      { priorState := outcome.rollbackRef.map Json.loads
        appliedState := some outcome.reason
        setRollbackDeadline := decide (outcome.status = .executed) }
  | .error e => Ends cfg m t (.error e)

theorem throttle_obeys {now : Time} (hp : parseRequest m = .ok req)
    (hact : req.action = RemediationAction.throttle.value)
    (hprot : isProtected cfg req.service = false) (hadm : Admitted cfg req now h) :
    (throttle req.service).Obeys (anyAnswer (May cfg m)) (Outcomes cfg m req) h := by
  unfold throttle
  split
  rename_i ns name hsplit
  refine Prog.Obeys.bind (readOrMissing_obeys hadm.idle) ?_ fun t e he => he
  intro t d ht
  -- the deployment may be missing, or at the limit already
  cases d with
  | none =>
      rw [show t ++ h = _ from ht]
      exact .noDeployment _ hact hadm
  | some d =>
      rw [show t ++ h = _ from ht]
      dsimp only
      split
      · exact .throttled _ hact hadm
      · rename_i hlimit
        have hc := Contains.throttle hact hprot hadm hsplit hlimit
        refine obeys_call (.patch hp hc) (fun _ => .contained _ hc rfl) ?_
        exact ends_raised hc.idle (ne_insert rfl) (by rintro name ns ⟨⟩) rfl

theorem freezeScaling_obeys {now : Time} (hp : parseRequest m = .ok req)
    (hact : req.action = RemediationAction.freezeScaling.value)
    (hprot : isProtected cfg req.service = false) (hadm : Admitted cfg req now h) :
    (freezeScaling req.service).Obeys (anyAnswer (May cfg m)) (Outcomes cfg m req) h := by
  unfold freezeScaling
  split
  rename_i ns name hsplit
  refine obeys_call (.read rfl) (fun hpas => ?_)
    (ends_raised hadm.idle (ne_insert rfl) (by rintro name ns ⟨⟩) rfl)
  split
  -- no HPA, no replicas reported, none running, or the maximum is there already
  · exact .frozen _ hact hadm
  · rename_i hpa hfind
    split
    · exact .frozen _ hact hadm
    · rename_i n hn
      split
      · exact .frozen _ hact hadm
      · rename_i h0
        split
        · exact .frozen _ hact hadm
        · rename_i hmax
          have hc := Contains.freeze hact hprot hadm hsplit hfind hn h0 hmax
          refine obeys_call (.patch hp hc) (fun _ => .contained _ hc rfl) ?_
          exact ends_raised hc.idle (ne_insert rfl) (by rintro name ns ⟨⟩) rfl

/-- What the rate limit leaves `handle` with. -/
theorem rateLimitExceeded_obeys (hact : req.action ≠ "rollback") :
    (rateLimitExceeded cfg req.service).Obeys (anyAnswer (May (K := K) cfg m))
      (fun t r => match r with
        | .ok (some .global) => Answers cfg req t .blockedByGlobalRateLimit {}
        | .ok (some .perService) => Answers cfg req t .blockedByPerServiceRateLimit {}
        | .ok none => ∃ now, Admitted cfg req now t
        | .error e => Ends cfg m t (.error e)) [] := by
  unfold rateLimitExceeded
  refine obeys_local rfl (.read rfl) fun now => ?_
  refine obeys_call (.read rfl) (fun n₁ => ?_)
    (ends_raised (.cons rfl .nil) (ne_insert rfl) (by rintro name ns ⟨⟩) rfl)
  split
  · rename_i hn₁
    exact .global hact hn₁
  · rename_i hn₁
    refine obeys_call (.read rfl) (fun n₂ => ?_)
      (ends_raised (.cons rfl (.cons rfl .nil)) (ne_insert rfl)
        (by rintro name ns ⟨⟩) rfl)
    split
    · rename_i hn₂
      exact .perService hact hn₂
    · rename_i hn₂
      exact ⟨now, n₁, n₂, by omega, by omega⟩

theorem handleRollback_obeys (hp : parseRequest m = .ok req) (hact : req.action = "rollback") :
    (handleRollback cfg req).Obeys (anyAnswer (May (K := K) cfg m)) (Ends cfg m) [] := by
  unfold handleRollback
  cases ht : req.targetActionId with
  | none => exact .noTarget hp hact ht
  | some t =>
      refine obeys_call (.read rfl) (fun row => ?_)
        (ends_raised .nil (ne_insert rfl) (by rintro name ns ⟨⟩) rfl)
      split
      · exact record_obeys hp (.noRow hact ht)
      · rename_i row
        split
        · rename_i hprior
          exact record_obeys hp (.noReference hact ht hprior)
        · rename_i prior hprior
          refine Prog.Obeys.bind (R := fun t' r => match r with
            | .ok true => Answers cfg req t' .rollbackWindowExpired { rollbackRef := some row.id }
            | .ok false => Loaded req row prior t'
            | .error e => Ends cfg m t' (.error e)) ?_ ?_ fun t' e he => he
          -- a deadline may be absent, passed, or still ahead
          · unfold pastDeadline
            split
            · rename_i hd
              exact .mk hact ht hprior (.unlimited hd)
            · rename_i d hd
              refine obeys_local rfl (.read rfl) fun (now : Time) => ?_
              by_cases hlt : now > d
              · simp only [hlt, decide_true]
                exact .expired hact ht hd hlt
              · simp only [hlt, decide_false]
                exact .mk hact ht hprior (.checked now d hd (not_lt.mp hlt))
          · rintro t' (_ | _) hr
            · refine Prog.Obeys.bind (rollback_obeys hp hr) ?_ fun t'' e he => he
              intro t'' outcome hout
              exact record_obeys hp hout
            · exact record_obeys hp hr

/-- **`handle` makes only the calls it may, and ends as it should.** -/
theorem handle_obeys (cfg : Config) (m : RemediationMessage) :
    (handle (K := K) cfg m).Obeys (anyAnswer (May cfg m)) (Ends cfg m) [] := by
  unfold handle
  refine obeys_lift (fun req hp => ?_) fun e he => .malformed he
  split
  · rename_i hact
    refine Prog.Obeys.bind (handleRollback_obeys hp hact) ?_ fun t e he => he
    intro t a ht
    exact ht
  · rename_i hact
    -- the source tries the floor first, then the limits, then the action
    split
    · rename_i hprot
      refine Prog.Obeys.bind (record_obeys hp (.floor hact hprot)) ?_ fun t e he => he
      intro t a ht
      exact ht
    · rename_i hprot
      have hprot : isProtected cfg req.service = false := by simpa using hprot
      refine Prog.Obeys.bind (rateLimitExceeded_obeys hact) ?_ fun t e he => he
      rintro t (_ | _ | _) hr
      · obtain ⟨now, hadm⟩ := hr
        dsimp only
        split
        · rename_i hthrottle
          refine Prog.Obeys.bind (throttle_obeys hp hthrottle hprot hadm) ?_ fun t e he => he
          intro t' outcome hout
          exact record_obeys hp hout
        · split
          · rename_i hfreeze
            refine Prog.Obeys.bind (freezeScaling_obeys hp hfreeze hprot hadm) ?_ fun t e he => he
            intro t' outcome hout
            exact record_obeys hp hout
          · exact record_obeys hp (.unsupported hact hadm)
      · exact record_obeys hp hr
      · exact record_obeys hp hr

end HyperTrace.Executor
