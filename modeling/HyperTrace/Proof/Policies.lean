import HyperTrace.Proof.Authority
import HyperTrace.Proof.Corroboration
import Mathlib.Data.List.Sigma

/-!
# What one stored rule can do to the others

The API stores any JSON object as a rule, and `policy_matches` compares whatever it
finds there. A rule of the wrong type may make that raise, which ends the handling
of the anomaly before a later rule is looked at, or it may happen to match. Rules
are looked at in the order of their priority, so what matters is where such a rule
stands: this module says where exactly it does no harm.
-/

namespace HyperTrace.Proof

open HyperTrace Effect Decision

variable {K : Type}

/-! ## Tables the API can store -/

section

/-- The policies were stored by calls of the API, the rest of the world being whatever it is. -/
inductive Posted [Scalar K] : World K → Prop where
  | empty {w : World K} (hw : w.policies = []) : Posted w
  | post {w : World K} (hw : Posted w) (user : Api.User) (policy : Api.PolicyIn K)
      (tie : Nat → Nat) : Posted ((Api.createPolicy user policy).run exec (sound tie) w).2
  | delete {w : World K} (hw : Posted w) (user : Api.User) (policyId : Uuid) (tie : Nat → Nat) :
      Posted ((Api.deletePolicy user policyId).run exec (sound tie) w).2
  | other {w w' : World K} (hw : Posted w) (hw' : w'.policies = w.policies) : Posted w'

theorem requireSre_ensures [Scalar K] (user : Api.User) (w : World K) :
    (Api.requireSre user).Ensures exec (fun _ w' => w' = w) w := by
  unfold Api.requireSre
  exact Prog.Ensures.ite (fun _ => rfl) fun _ => rfl

/-- The row of a policy. -/
def storedAs (policy : Api.PolicyIn K) (id : Uuid) : PolicyRow K :=
  ⟨id, policy.orgId, policy.ruleDsl, policy.scope, policy.action.value, policy.priority⟩

/-- Whatever the database does, a policy is refused and nothing stored, or it is stored as sent. -/
theorem createPolicy_ensures [Scalar K] (user : Api.User) (policy : Api.PolicyIn K) (w : World K) :
    (Api.createPolicy user policy).Ensures exec (fun r w' =>
      (∃ e, r = .error e) ∧ w'.policies = w.policies
        ∨ ∃ id, w'.policies = w.policies ++ [storedAs policy id]) w := by
  unfold Api.createPolicy
  refine Prog.Ensures.bind (requireSre_ensures user w) ?_ ?_
  · intro _ w' hw
    subst hw
    refine Prog.Ensures.call (fun x policyId _ => ?_) fun x e he => by cases he
    refine Prog.Ensures.call (fun y _ hstored => ?_) fun y e hstored => ?_
    · obtain ⟨fault, tie⟩ := y
      cases fault with
      | none => exact .inr ⟨policyId, rfl⟩
      | before _ => cases hstored
      | after _ => cases hstored
    · obtain ⟨fault, tie⟩ := y
      cases fault with
      | none => cases hstored
      | before _ => exact .inl ⟨⟨e, rfl⟩, rfl⟩
      | after _ => exact .inr ⟨policyId, rfl⟩
  · intro e w' hw
    rw [hw]
    exact .inl ⟨⟨e, rfl⟩, rfl⟩

theorem deletePolicy_ensures [Scalar K] (user : Api.User) (policyId : Uuid) (w : World K) :
    (Api.deletePolicy user policyId).Ensures exec
      (fun _ w' => ∀ row ∈ w'.policies, row ∈ w.policies) w := by
  unfold Api.deletePolicy
  refine Prog.Ensures.bind (requireSre_ensures user w) ?_ ?_
  · intro _ w' hw
    subst hw
    have hdeleted : ∀ (x : Choice), ∀ row ∈ (exec w' (.deletePolicy policyId) x).2.policies,
        row ∈ w'.policies := by
      intro x row hrow
      obtain ⟨fault, tie⟩ := x
      cases fault with
      | none => exact List.mem_of_mem_filter hrow
      | before _ => exact hrow
      | after _ => exact List.mem_of_mem_filter hrow
    refine Prog.Ensures.call (fun x (rowcount : Nat) _ => ?_) fun x e _ => hdeleted x
    exact Prog.Ensures.ite (fun _ => hdeleted x) fun _ => hdeleted x
  · intro e w' hw
    rw [hw]
    exact fun row hrow => hrow

/-- A stored action is one of the enumeration. -/
theorem Posted.action [Scalar K] {w : World K} (hw : Posted w) :
    ∀ row ∈ w.policies, ∃ action, RemediationAction.parse row.action = .ok action := by
  induction hw with
  | empty hw =>
      intro row hrow
      rw [hw] at hrow
      cases hrow
  | @post w _ user policy tie ih =>
      intro row hrow
      obtain ⟨-, hsame⟩ | ⟨id, hstored⟩ := (createPolicy_ensures user policy w).run (sound tie)
      · exact ih row (hsame ▸ hrow)
      · rw [hstored] at hrow
        rcases List.mem_append.mp hrow with hrow | hrow
        · exact ih row hrow
        · rw [List.mem_singleton.mp hrow]
          exact ⟨_, RemediationAction.parse_value _⟩
  | @delete w _ user policyId tie ih =>
      intro row hrow
      exact ih row ((deletePolicy_ensures user policyId w).run (sound tie) row hrow)
  | other _ hsame ih =>
      intro row hrow
      exact ih row (hsame ▸ hrow)

end

/-! ## Rules of the right type -/

section

variable {K : Type}

def isNumber : Json K → Bool
  | .int _ | .float _ => true
  | _ => false

def isText : Json K → Bool
  | .str _ => true
  | _ => false

def isTextList : Json K → Bool
  | .arr xs => xs.all isText
  | _ => false

def isBool : Json K → Bool
  | .bool _ => true
  | _ => false

/-- The field is unset, or what it should be. -/
def fieldIs (right : Json K → Bool) (ruleDsl : List (String × Json K)) (key : String) : Bool :=
  (getNotNone ruleDsl key).all right

/-- Every field has the type the docstring of `policy.py` gives it. -/
def wellTyped (ruleDsl : List (String × Json K)) : Bool :=
  fieldIs isTextList ruleDsl "classifications" && fieldIs isNumber ruleDsl "min_cost_per_hour"
    && fieldIs isText ruleDsl "service_prefix" && fieldIs isBool ruleDsl "requires_approval"
    && fieldIs isNumber ruleDsl "min_confidence"

end

section

variable [Scalar K] {ruleDsl : List (String × Json K)}

/-- One field of a rule: if it is set and its test comes out as `bad`, the rule does not match. -/
def checkedField (field : Option (Json K)) (test : Json K → Except Err Bool) (bad : Bool → Bool)
    (rest : Except Err Bool) : Except Err Bool :=
  match field with
  | some v => do
      let b ← test v
      if bad b then pure false else rest
  | none => rest

theorem policyMatches_eq (classification service : String) (cost confidence : K) :
    policyMatches ruleDsl classification service cost confidence
      = checkedField (getNotNone ruleDsl "min_confidence") (Json.ltNumber confidence) id
          (checkedField (getTruthy ruleDsl "classifications") (Json.containsStr classification) not
            (checkedField (getNotNone ruleDsl "min_cost_per_hour") (Json.ltNumber cost) id
              (checkedField (getTruthy ruleDsl "service_prefix") (Json.startsWith service) not
                (.ok true)))) := by
  unfold policyMatches
  cases getNotNone ruleDsl "min_confidence" <;> cases getTruthy ruleDsl "classifications" <;>
    cases getNotNone ruleDsl "min_cost_per_hour" <;> cases getTruthy ruleDsl "service_prefix" <;>
      rfl

omit [Scalar K] in
theorem checked_decides {field : Option (Json K)} {test : Json K → Except Err Bool}
    {bad : Bool → Bool} {rest : Except Err Bool}
    (htest : ∀ v, field = some v → ∃ b, test v = .ok b) (hrest : ∃ b, rest = .ok b) :
    ∃ b, checkedField field test bad rest = .ok b := by
  cases field with
  | none => exact hrest
  | some v =>
      obtain ⟨b, hb⟩ := htest v rfl
      simp only [checkedField, hb]
      cases hbad : bad b with
      | true => exact ⟨false, by simp [bind, Except.bind, hbad]; rfl⟩
      | false =>
          obtain ⟨r, hr⟩ := hrest
          exact ⟨r, by simp [bind, Except.bind, hbad, hr]⟩

/-- A value that is set and truthy is one that is set. -/
theorem getNotNone_of_getTruthy {key : String} {v : Json K}
    (h : getTruthy ruleDsl key = some v) : getNotNone ruleDsl key = some v := by
  obtain ⟨hget, htruthy⟩ := Option.filter_eq_some_iff.mp h
  unfold getNotNone
  rw [hget]
  cases v with
  | null => cases htruthy
  | _ => rfl

omit [Scalar K] in
theorem fieldIs_some {right : Json K → Bool} {key : String} {v : Json K}
    (h : fieldIs right ruleDsl key = true) (hv : getNotNone ruleDsl key = some v) :
    right v = true := by
  rw [fieldIs, hv] at h
  exact h

theorem ltNumber_decides {v : Json K} (h : isNumber v = true) (x : K) :
    ∃ b, Json.ltNumber x v = .ok b := by
  cases v with
  | int n => exact ⟨_, rfl⟩
  | float y => exact ⟨_, rfl⟩
  | _ => cases h

/-- **A well-typed rule is decided, never raised on.** -/
theorem wellTyped_decides (h : wellTyped ruleDsl = true) (classification service : String)
    (cost confidence : K) :
    ∃ b, policyMatches ruleDsl classification service cost confidence = .ok b := by
  simp only [wellTyped, Bool.and_eq_true] at h
  obtain ⟨⟨⟨⟨hclass, hcost⟩, hprefix⟩, -⟩, hconf⟩ := h
  rw [policyMatches_eq]
  refine checked_decides ?_ (checked_decides ?_
    (checked_decides ?_ (checked_decides ?_ ⟨true, rfl⟩)))
  · intro v hv
    exact ltNumber_decides (fieldIs_some hconf hv) confidence
  · intro v hv
    have hright := fieldIs_some hclass (getNotNone_of_getTruthy hv)
    cases v with
    | arr xs => exact ⟨_, rfl⟩
    | _ => cases hright
  · intro v hv
    exact ltNumber_decides (fieldIs_some hcost hv) cost
  · intro v hv
    have hright := fieldIs_some hprefix (getNotNone_of_getTruthy hv)
    cases v with
    | str p => exact ⟨_, rfl⟩
    | _ => cases hright

end

/-! ## The first match, in every order of the rows that tie -/

section

/-- The database may return a row before all others of its priority. -/
theorem exists_tie_first {α : Type} (key : α → ℤ) {rows : List α} {r : α} (hr : r ∈ rows) :
    ∃ tie before after, orderBy key tie rows = before ++ r :: after
      ∧ ∀ q ∈ before, key q < key r := by
  obtain ⟨i, hi⟩ := List.mem_iff_getElem?.mp hr
  let tie : Nat → Nat := fun j => if j = i then 0 else 1
  let le : α × Nat → α × Nat → Prop := fun a b =>
    key a.1 < key b.1 ∨ key a.1 = key b.1 ∧ tie a.2 ≤ tie b.2
  have : Std.Total le := ⟨fun a b => by simp only [le]; omega⟩
  have : IsTrans (α × Nat) le := ⟨fun a b c => by simp only [le]; omega⟩
  have hperm := List.perm_insertionSort le rows.zipIdx
  have hmem : (r, i) ∈ rows.zipIdx.insertionSort le :=
    hperm.mem_iff.mpr (List.mem_zipIdx_iff_getElem?.mpr hi)
  obtain ⟨before, after, hsplit⟩ := List.append_of_mem hmem
  have hsorted := List.pairwise_insertionSort le rows.zipIdx
  have hnodup : ((rows.zipIdx.insertionSort le).map Prod.snd).Nodup :=
    (hperm.map Prod.snd).nodup_iff.mpr (List.nodup_zipIdx_map_snd rows)
  rw [hsplit] at hsorted hnodup
  refine ⟨tie, before.map Prod.fst, after.map Prod.fst, ?_, ?_⟩
  · rw [orderBy]
    exact (congrArg (List.map Prod.fst) hsplit).trans (by simp)
  · intro q hq
    obtain ⟨⟨q', j⟩, hqj, rfl⟩ := List.mem_map.mp hq
    have hle : le (q', j) (r, i) :=
      (List.pairwise_append.mp hsorted).2.2 _ hqj _ (List.mem_cons_self ..)
    -- of the rows of its priority only the row itself comes as early as this
    have hji : j ≠ i := by
      intro hji
      rw [List.map_append, List.map_cons, List.nodup_append] at hnodup
      exact hnodup.2.2 j (List.mem_map.mpr ⟨_, hqj, rfl⟩) i (List.mem_cons_self ..) hji
    have htie : tie j = 1 ∧ tie i = 0 := ⟨if_neg hji, if_pos rfl⟩
    have hcases : key q' < key r ∨ key q' = key r ∧ tie j ≤ tie i := hle
    show key q' < key r
    omega

end

/-! ## What becomes of an anomaly -/

section

variable [Scalar K] {cfg : Decision.Config} {w : World K} {m : AnomalyMessage K}

/-- What a rule has to say about the anomaly. -/
def ruleOn (cfg : Decision.Config) (w : World K) (m : AnomalyMessage K) (row : PolicyRow K) :
    Except Err Bool :=
  policyMatches row.ruleDsl (classified cfg w m.service).value m.service (m.evidence.value.getD 0)
    (scoreConfidence m)

/-- The handler comes to its end, whatever order the database returns the policies in. -/
def RaisesNothing (cfg : Decision.Config) (w : World K) (m : AnomalyMessage K) : Prop :=
  ∀ tie, ((handleAnomaly cfg m).run exec (sound tie) w).1 = .ok ()

/-- A well-typed policy that matches, before every other one that does. -/
structure Foremost (cfg : Decision.Config) (w : World K) (m : AnomalyMessage K)
    (policy : PolicyRow K) : Prop where
  mem : policy ∈ w.policies
  typed : wellTyped policy.ruleDsl = true
  isMatch : ruleOn cfg w m policy = .ok true
  least : ∀ q ∈ w.policies, q ≠ policy → wellTyped q.ruleDsl = true → ruleOn cfg w m q = .ok true →
    policy.priority < q.priority

/-- The anomaly is decided under the policy: it is the one found, and the cascade goes by it. -/
def DecidedUnder (cfg : Decision.Config) (w : World K) (m : AnomalyMessage K)
    (policy : PolicyRow K) : Prop :=
  ∀ tie, matched cfg tie w m = .ok (some policy)
    ∧ ActsUnder cfg tie w m (Decision.authorityFor (scoreConfidence m))

/-- No stored rule keeps an anomaly from being decided under the policy that is due. -/
def RulesIndependent (cfg : Decision.Config) (w : World K) (m : AnomalyMessage K) : Prop :=
  RaisesNothing cfg w m ∧ ∀ policy, Foremost cfg w m policy → DecidedUnder cfg w m policy

/-- Where the rules that misbehave on this anomaly stand in the table. -/
structure RulesInPlace (cfg : Decision.Config) (w : World K) (m : AnomalyMessage K) : Prop where
  /-- Behind a rule that matches, if they raise. -/
  raising : ∀ q ∈ w.policies, ∀ e, ruleOn cfg w m q = .error e →
    ∃ r ∈ w.policies, ruleOn cfg w m r = .ok true ∧ r.priority < q.priority
  /-- Behind the policy that is due, if they are ill-typed and match. -/
  matching : ∀ policy, Foremost cfg w m policy → ∀ q ∈ w.policies, wellTyped q.ruleDsl = false →
    ruleOn cfg w m q = .ok true → policy.priority < q.priority

/-- The handler raises exactly if looking for a policy does. -/
theorem handleAnomaly_ok_iff (hcl : m.classification ≠ some .legitimateTrafficGrowth)
    (hw : Posted w) (hrec : ∃ a ∈ w.anomalies, a.id = m.id)
    (hfresh : ∀ r ∈ w.actionsLog, r.id ≠ w.nextUuid) (tie : Nat → Nat) :
    ((handleAnomaly cfg m).run exec (sound tie) w).1 = .ok ()
      ↔ ∀ e, matched cfg tie w m ≠ .error e := by
  obtain ⟨reason, hrun⟩ : ∃ reason, (handleAnomaly cfg m).run exec (sound tie) w = _ :=
    handleAnomaly_decides hcl
  rw [hrun]
  cases hm : matched cfg tie w m with
  | error e =>
      refine ⟨fun h => ?_, fun h => absurd rfl (h e)⟩
      cases h
  | ok found =>
      refine ⟨fun _ e he => (by cases he), fun _ => ?_⟩
      cases found with
      | none => rfl
      | some policy =>
          have hmem : policy ∈ w.policies := by
            obtain ⟨before, after, hrows, -⟩ := firstMatch_spec hm
            refine mem_orderBy.mp (?_ : policy ∈ orderBy PolicyRow.priority tie w.policies)
            rw [hrows]
            exact List.mem_append_right _ (List.mem_cons_self ..)
          obtain ⟨act, hact⟩ := hw.action policy hmem
          simp only [Except.map, Option.map, lift_ok, Prog.bind_eq, Prog.ret_bind, decideOn, hact]
          exact (gate_run fun _ _ => reclassified_admits hrec hfresh).1

/-- **Looking for a policy raises in no order if every rule that raises stands behind a match.** -/
theorem matched_ne_error_iff :
    (∀ tie e, matched cfg tie w m ≠ .error e)
      ↔ ∀ q ∈ w.policies, ∀ e, ruleOn cfg w m q = .error e →
          ∃ r ∈ w.policies, ruleOn cfg w m r = .ok true ∧ r.priority < q.priority := by
  constructor
  · intro hnever q hq e he
    by_contra hnone
    obtain ⟨tie, before, after, hrows, hbefore⟩ := exists_tie_first PolicyRow.priority hq
    have hmiss : ∀ r ∈ before, ruleOn cfg w m r ≠ .ok true := by
      intro r hr hmatch
      have hmem : r ∈ orderBy PolicyRow.priority tie w.policies := by
        rw [hrows]
        exact List.mem_append_left _ hr
      exact hnone ⟨r, mem_orderBy.mp hmem, hmatch, hbefore r hr⟩
    obtain ⟨e', he'⟩ := findM?_raises he hmiss
    exact hnever tie e' (by rw [matched, hrows, firstMatch_eq]; exact he')
  · intro hplace tie e he
    rw [matched, firstMatch_eq] at he
    obtain ⟨before, q, after, hrows, hq, hbefore⟩ := findM?_eq_error he
    have hsorted := orderBy_sorted PolicyRow.priority tie w.policies
    have hmem : ∀ r, r ∈ w.policies ↔ r ∈ before ++ q :: after := by
      intro r
      rw [← hrows, mem_orderBy]
    obtain ⟨r, hr, hmatch, hlt⟩ :=
      hplace q ((hmem q).mpr (List.mem_append_right _ (List.mem_cons_self ..))) e hq
    rw [hrows] at hsorted
    have htail := List.pairwise_cons.mp (List.pairwise_append.mp hsorted).2.1
    -- the rule that matches has a smaller number, so the loop has been there
    rcases List.mem_append.mp ((hmem r).mp hr) with hr | hr
    · rw [ruleOn, hbefore r hr] at hmatch
      cases hmatch
    · rcases List.mem_cons.mp hr with rfl | hr
      · exact lt_irrefl _ hlt
      · exact absurd (htail.1 r hr) (not_le.mpr hlt)

/-- The policy that is due is found in every order if no ill-typed match stands before it. -/
theorem decidedUnder_of_place (hplace : RulesInPlace cfg w m) {policy : PolicyRow K}
    (hp : Foremost cfg w m policy) (tie : Nat → Nat) : matched cfg tie w m = .ok (some policy) := by
  have hmem : policy ∈ orderBy PolicyRow.priority tie w.policies := mem_orderBy.mpr hp.mem
  cases hm : matched cfg tie w m with
  | error e => exact absurd hm (matched_ne_error_iff.mpr hplace.raising tie e)
  | ok found =>
      cases found with
      | none =>
          rw [matched, firstMatch_eq] at hm
          have hmiss := findM?_eq_none hm policy hmem
          have hmatch := hp.isMatch
          rw [ruleOn, hmiss] at hmatch
          cases hmatch
      | some q =>
          have hfirst := leastMatch_of_firstMatch hm (orderBy_sorted _ _ _)
          have hq : q ∈ w.policies := mem_orderBy.mp hfirst.mem
          have hle : q.priority ≤ policy.priority := hfirst.least policy hmem hp.isMatch
          by_cases heq : q = policy
          · rw [heq]
          · have hlt : policy.priority < q.priority := by
              cases htyped : wellTyped q.ruleDsl with
              | true => exact hp.least q hq heq htyped hfirst.isMatch
              | false => exact hplace.matching policy hp q hq htyped hfirst.isMatch
            exact absurd hle (not_le.mpr hlt)

/-- An ill-typed match that does not stand behind the policy that is due may be found before it. -/
theorem lt_of_decidedUnder {policy q : PolicyRow K} (hp : Foremost cfg w m policy)
    (hdec : ∀ tie, matched cfg tie w m = .ok (some policy)) (hq : q ∈ w.policies)
    (htyped : wellTyped q.ruleDsl = false) (hmatch : ruleOn cfg w m q = .ok true) :
    policy.priority < q.priority := by
  have hne : q ≠ policy := by
    intro heq
    rw [heq, hp.typed] at htyped
    cases htyped
  by_contra hle
  obtain ⟨tie, before, after, hrows, hbefore⟩ := exists_tie_first PolicyRow.priority hq
  obtain ⟨front, back, hrows', -, hfront⟩ := firstMatch_spec (hdec tie)
  rw [hrows] at hrows'
  rcases List.append_eq_append_iff.mp hrows' with ⟨mid, hmid, htail⟩ | ⟨mid, hmid, htail⟩
  · cases mid with
    | nil => exact hne (List.cons.inj htail).1
    | cons r mid =>
        obtain ⟨rfl, -⟩ := List.cons.inj htail
        have hmiss := hfront q (by rw [hmid]; simp)
        rw [ruleOn, hmiss] at hmatch
        cases hmatch
  · cases mid with
    | nil => exact hne (List.cons.inj htail).1.symm
    | cons r mid =>
        obtain ⟨rfl, -⟩ := List.cons.inj htail
        exact hle (hbefore policy (by rw [hmid]; simp))

/--
**Stored rules are independent of each other exactly where those that misbehave stand
behind others.**

The table is any the API can store, the message is one the detector publishes, its
anomaly is recorded, and the id that is drawn is new.
-/
theorem rulesIndependent_iff (hw : Posted w) {mc : CostEvent K} {f : Behaviour.Flag K}
    (hf : Behaviour.Flags mc f) {id : Uuid} {now : Time} (hrec : ∃ a ∈ w.anomalies, a.id = id)
    (hfresh : ∀ r ∈ w.actionsLog, r.id ≠ w.nextUuid) :
    RulesIndependent cfg w (f.message id now) ↔ RulesInPlace cfg w (f.message id now) := by
  have hcl : (f.message id now).classification ≠ some .legitimateTrafficGrowth := by
    simp [Behaviour.Flag.message, hf.classification]
  have hnever : RaisesNothing cfg w (f.message id now)
      ↔ ∀ tie e, matched cfg tie w (f.message id now) ≠ .error e :=
    forall_congr' fun tie => handleAnomaly_ok_iff hcl hw hrec hfresh tie
  constructor
  · intro hind
    refine ⟨matched_ne_error_iff.mp (hnever.mp hind.1), ?_⟩
    intro policy hp q hq htyped hmatch
    exact lt_of_decidedUnder hp (fun tie => (hind.2 policy hp tie).1) hq htyped hmatch
  · intro hplace
    refine ⟨hnever.mpr (matched_ne_error_iff.mpr hplace.raising), ?_⟩
    intro policy hp tie
    exact ⟨decidedUnder_of_place hplace hp tie, handleAnomaly_run hcl hrec hfresh⟩

end

/-! ## One rule of the wrong type -/

namespace Scenario

/-- `alarmed`'s policy is one the API stored. -/
theorem posted_alarmed (ruleDsl : List (String × Json ℚ)) : Posted (alarmed ruleDsl) := by
  have hnone : Posted { World.empty ℚ with nextUuid := 1 } := .empty rfl
  exact .other (.post hnone sre ⟨"default", ruleDsl, "*", .throttle, 0⟩ id) rfl

/-- A number where there should be one, and a word. -/
def numeric : List (String × Json ℚ) := [("min_confidence", .int 0)]
def worded : List (String × Json ℚ) := [("min_confidence", .str "high")]

end Scenario

open Scenario in
/-- A stored rule compares the confidence with a word, and the anomaly is dropped. -/
theorem worded_rule_raises :
    Posted (alarmed worded) ∧ Behaviour.Flags reading strong
      ∧ (∃ a ∈ (alarmed worded).anomalies, a.id = 0)
      ∧ (∀ r ∈ (alarmed worded).actionsLog, r.id ≠ (alarmed worded).nextUuid)
      ∧ ((handleAnomaly settings.decision (strong.message 0 0)).run exec (sound id)
        (alarmed worded)).1 = .error .typeError
      ∧ ¬ RulesIndependent settings.decision (alarmed worded) (strong.message 0 0) := by
  have hraised : ((handleAnomaly settings.decision (strong.message 0 0)).run exec (sound id)
      (alarmed worded)).1 = .error .typeError := by decide +kernel
  refine ⟨posted_alarmed worded, ⟨rfl, ⟨720, rfl⟩, rfl⟩,
    ⟨strong.row 0 0, List.mem_singleton_self _, rfl⟩, ?_, hraised, fun hind => ?_⟩
  · intro r hr
    cases hr
  · have hok := hind.1 id
    rw [hraised] at hok
    cases hok

open Scenario in
/-- A rule with a number in the same place. -/
theorem rulesIndependent_numeric :
    RulesIndependent settings.decision (alarmed numeric) (strong.message 0 0) := by
  have hf : Behaviour.Flags reading strong := ⟨rfl, ⟨720, rfl⟩, rfl⟩
  have hrec : ∃ a ∈ (alarmed numeric).anomalies, a.id = 0 :=
    ⟨strong.row 0 0, List.mem_singleton_self _, rfl⟩
  refine (rulesIndependent_iff (posted_alarmed numeric) hf hrec (by intro r hr; cases hr)).mpr
    ⟨?_, ?_⟩
  · intro q hq e he
    rw [List.mem_singleton.mp hq] at he
    have hmatch : ruleOn settings.decision (alarmed numeric) (strong.message 0 0)
        ⟨1, "default", numeric, "*", "throttle", 0⟩ = .ok true := by decide +kernel
    cases hmatch.symm.trans he
  · intro policy _ q hq htyped _
    rw [List.mem_singleton.mp hq] at htyped
    exact absurd htyped (by decide)

end HyperTrace.Proof
