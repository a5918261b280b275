import HyperTrace.Frontend.Policies
import HyperTrace.Proof.Policies

/-!
# What becomes of a typed cost threshold

A threshold goes through four hands: the form reads it as a number, JSON writes the
number, the API stores what it is sent, and `policy_matches` takes a `null` for no
restriction. JSON has no way to write a number that is none, or an infinite one, so
such a threshold arrives as a rule without one. What a text denotes is that of the
grammar of numerals; the rest is followed from hand to hand.
-/

namespace HyperTrace.Proof

open HyperTrace Effect Decision Frontend Numeral

variable {K : Type} [Scalar K]

/-- The cost is below the number. -/
def Below (cost : K) : Double → Prop
  | .finite q => cost < q
  | .infinity negative => negative = false
  | .nan => False

/--
The policy of the form is refused, or stored as a rule that matches nothing which costs
less than the number the text of the form denotes.
-/
def ThresholdKept (user : Api.User) (form : Form) (w : World K) (c : Nat → Choice) : Prop :=
  (∃ e, ((create user form).run exec c w).1 = .error e)
    ∨ ∃ row m, ((create user form).run exec c w).2.policies = w.policies ++ [row]
      ∧ Denotes form.minCost m
      ∧ ∀ classification service cost confidence, Below cost m →
        policyMatches row.ruleDsl classification service cost confidence = .ok false

/-- The text of the form's priority is a whole number that the column can hold. -/
def PriorityStorable (form : Form) : Prop :=
  ∃ n : ℤ, Denotes form.priority (.finite n) ∧ Api.fitsInteger n = true

/-! ## From the text to the body -/

section

theorem number_stringify (q : ℚ) :
    ((JsValue.number (.finite q)).stringify : Json K).number = some (q : K) := by
  rw [JsValue.stringify]
  split
  · next h =>
    rw [Json.number, Rat.cast_def, h.1, Nat.cast_one, div_one]
  · rfl

/-- A number that is read back as an integer was one. -/
theorem readInt_stringify {d : Double} {n : ℤ}
    (h : Api.readInt ((JsValue.number d).stringify : Json K) = some n) : d = .finite n := by
  cases d with
  | nan => cases h
  | infinity _ => cases h
  | finite q =>
      rw [JsValue.stringify] at h
      split at h
      · next hint =>
        cases h
        rw [(Rat.den_eq_one_iff q).mp hint.1]
      · rw [Api.readInt] at h
        split at h
        · next hfloor =>
          cases h
          have hq : ((⌊(q : K)⌋ : ℚ) : K) = (q : K) := by
            rw [Rat.cast_intCast]
            exact hfloor.1
          rw [Rat.cast_injective hq]
        · cases h

theorem readInt_stringify_int {n : ℤ} (hn : Api.fitsInteger n = true) :
    Api.readInt ((JsValue.number (.finite n)).stringify : Json K) = some n := by
  have hrange := of_decide_eq_true hn
  have hsmall : n.natAbs < 10 ^ 21 := by omega
  rw [JsValue.stringify, Rat.den_intCast, Rat.num_intCast, if_pos ⟨rfl, hsmall⟩]
  rfl

/-- Of the fields of the body only the priority may be refused. -/
theorem policyIn_policyBody (form : Form) :
    Api.policyIn (policyBody form : Json K)
      = (Api.bodyField [("priority", ((JsValue.number (number form.priority)).stringify : Json K))]
        "priority" (.ok 0) Api.readInt).map fun priority =>
          { orgId := "default", ruleDsl := sentRule form, scope := "*", action := form.action,
            priority := priority } := by
  rw [policyBody]
  generalize ((JsValue.number (number form.priority)).stringify : Json K) = j
  cases form.action <;> rfl

end

/-! ## From the body to the rule -/

section

variable {form : Form}

theorem lookup_threshold (hblank : trim form.minCost ≠ []) :
    Json.get (sentRule form : List (String × Json K)) "min_cost_per_hour"
      = some (JsValue.number (number form.minCost)).stringify := by
  unfold sentRule formRule
  rw [if_pos hblank]
  split <;> rfl

theorem policyMatches_sentRule (classification service : String) (cost confidence : K) :
    policyMatches (sentRule form) classification service cost confidence
      = checkedField (getNotNone (sentRule form) "min_cost_per_hour") (Json.ltNumber cost) id
          (checkedField (getTruthy (sentRule form : List (String × Json K)) "service_prefix")
            (Json.startsWith service) not (.ok true)) := by
  have hconf : getNotNone (sentRule form : List (String × Json K)) "min_confidence" = none := by
    unfold sentRule formRule
    split <;> split <;> split <;> rfl
  have hclass : getTruthy (sentRule form : List (String × Json K)) "classifications" = none := by
    unfold sentRule formRule
    split <;> split <;> split <;> rfl
  rw [policyMatches_eq, hconf, hclass]
  rfl

theorem lookup_service {v : Json K} (h : Json.get (sentRule form) "service_prefix" = some v) :
    v = .str (String.ofList (trim form.servicePrefix)) := by
  unfold sentRule formRule at h
  split at h
  · exact (Option.some.inj h).symm
  · split at h <;> split at h <;> cases h

/-- A number that JSON can write restricts the rule. -/
theorem restricted {m : Double} (hblank : trim form.minCost ≠ []) (hden : Denotes form.minCost m)
    (hm : m ≠ .infinity false) (classification service : String) {cost : K} (confidence : K)
    (hbelow : Below cost m) :
    policyMatches (sentRule form) classification service cost confidence = .ok false := by
  have hnumber : number form.minCost = m := (denotes_iff.mp hden).1
  cases m with
  | nan => exact hbelow.elim
  | infinity negative =>
      have hpos : negative = false := hbelow
      exact absurd (congrArg Double.infinity hpos) hm
  | finite q =>
      have hval := number_stringify (K := K) q
      have hget := lookup_threshold (K := K) hblank
      rw [hnumber] at hget
      generalize ((JsValue.number (.finite q)).stringify : Json K) = j at hval hget
      have hnot : getNotNone (sentRule form) "min_cost_per_hour" = some j := by
        rw [getNotNone, hget]
        cases j with
        | null => cases hval
        | _ => rfl
      have hlt : Json.ltNumber cost j = .ok true := by
        rw [Json.ltNumber, hval]
        exact congrArg Except.ok (decide_eq_true hbelow)
      rw [policyMatches_sentRule, hnot, checkedField, hlt]
      rfl

/-- A number that it cannot write does not. -/
theorem unrestricted (hblank : trim form.minCost ≠ [])
    (hnumber : number form.minCost = .nan ∨ ∃ negative, number form.minCost = .infinity negative)
    (classification : String) (cost confidence : K) :
    policyMatches (sentRule form) classification (String.ofList (trim form.servicePrefix)) cost
      confidence = .ok true := by
  have hnone : getNotNone (sentRule form : List (String × Json K)) "min_cost_per_hour" = none := by
    rw [getNotNone, lookup_threshold hblank]
    rcases hnumber with hnan | ⟨negative, hinf⟩
    · rw [hnan]
      rfl
    · rw [hinf]
      rfl
  rw [policyMatches_sentRule, hnone]
  cases hget : getTruthy (sentRule form : List (String × Json K)) "service_prefix" with
  | none => rfl
  | some v =>
      rw [lookup_service (Option.filter_eq_some_iff.mp hget).1]
      have hself : startswith (String.ofList (trim form.servicePrefix))
          (String.ofList (trim form.servicePrefix)) = true := by
        rw [startswith, List.isPrefixOf_iff_prefix]
      rw [checkedField, checkedField, Json.startsWith, hself]
      rfl

end

/-! ## From the form to the rule -/

section

variable {form : Form} {w : World K}

theorem policyIn_of_storable (h : PriorityStorable form) :
    ∃ policy : Api.PolicyIn K, Api.policyIn (policyBody form) = .ok policy
      ∧ policy.ruleDsl = sentRule form ∧ Api.fitsInteger policy.priority = true := by
  obtain ⟨n, hden, hfits⟩ := h
  have hread := readInt_stringify_int (K := K) hfits
  rw [← (denotes_iff.mp hden).1] at hread
  refine ⟨⟨"default", sentRule form, "*", form.action, n⟩, ?_, rfl, hfits⟩
  rw [policyIn_policyBody, Api.bodyField, Json.get, List.lookup_cons_self]
  simp only [hread]
  rfl

theorem storable_of_policyIn {policy : Api.PolicyIn K}
    (h : Api.policyIn (policyBody form) = .ok policy)
    (hfits : Api.fitsInteger policy.priority = true) :
    policy.ruleDsl = sentRule form ∧ PriorityStorable form := by
  rw [policyIn_policyBody, Api.bodyField, Json.get, List.lookup_cons_self] at h
  cases hread : Api.readInt ((JsValue.number (number form.priority)).stringify : Json K) with
  | none =>
      simp only [hread] at h
      cases h
  | some n =>
      simp only [hread] at h
      cases h
      refine ⟨rfl, n, denotes_iff.mpr ⟨readInt_stringify hread, ?_⟩, hfits⟩
      exact fun hne => by cases hne

/-- Whatever the database does, the policy is refused or the rule of the form is stored. -/
theorem create_ensures (user : Api.User) (form : Form) (w : World K) :
    (create user form).Ensures exec (fun r w' => (∃ e, r = .error e)
      ∨ PriorityStorable form
        ∧ ∃ row, w'.policies = w.policies ++ [row] ∧ row.ruleDsl = sentRule form) w := by
  unfold create Api.postPolicy
  refine Prog.Ensures.bind (requireSre_ensures user w) ?_ fun e w' _ => .inl ⟨e, rfl⟩
  intro _ w' hw
  subst hw
  cases hpolicy : Api.policyIn (policyBody form : Json K) with
  | error e => exact .inl ⟨e, rfl⟩
  | ok policy =>
      refine Prog.Ensures.ite (fun hfits => ?_) fun _ => .inl ⟨.other, rfl⟩
      obtain ⟨hrule, hstorable⟩ := storable_of_policyIn hpolicy hfits
      refine (createPolicy_ensures user policy w').mono fun r w'' hr => ?_
      obtain ⟨hrefused, -⟩ | ⟨id, hstored⟩ := hr
      · exact .inl hrefused
      · exact .inr ⟨hstorable, storedAs policy id, hstored, hrule⟩

/-- With nothing in the way it is stored. -/
theorem create_sound {user : Api.User} (hsre : user.role = "sre") (h : PriorityStorable form) :
    ∃ row, (create user form).run exec (sound id) w = (.ok (.policy w.nextUuid),
        { w with nextUuid := w.nextUuid + 1, policies := w.policies ++ [row] })
      ∧ row.ruleDsl = sentRule form := by
  obtain ⟨policy, hpolicy, hrule, hfits⟩ := policyIn_of_storable (K := K) h
  refine ⟨storedAs policy w.nextUuid, ?_, hrule⟩
  unfold create Api.postPolicy
  simp only [hpolicy, hfits, if_true, Api.createPolicy, Api.requireSre, hsre, ne_eq,
    not_true_eq_false, if_false]
  rfl

/--
**A typed threshold is kept, or told to be wrong**, if and only if the text denotes a number
that JSON can write, or nothing is created because of the priority: what is no numeral, and
what is too large, is stored as no restriction at all.
-/
theorem threshold_kept_iff (form : Form) (hblank : trim form.minCost ≠ []) :
    (∀ (user : Api.User) (w : World K) (c : Nat → Choice), ThresholdKept user form w c)
      ↔ ¬ PriorityStorable form ∨ ∃ m, Denotes form.minCost m ∧ m ≠ .infinity false := by
  constructor
  · intro hkept
    by_contra hnot
    rw [not_or, not_not] at hnot
    obtain ⟨hstorable, hnone⟩ := hnot
    obtain ⟨row, hrun, hrule⟩ := create_sound (w := World.empty K)
      (rfl : (⟨"", "sre"⟩ : Api.User).role = "sre") hstorable
    obtain ⟨e, herr⟩ | ⟨row', m, hrow, hden, hrestricts⟩ :=
      hkept ⟨"", "sre"⟩ (World.empty K) (sound id)
    · rw [hrun] at herr
      cases herr
    · rw [hrun] at hrow
      cases hrow
      have hm : m = .infinity false := by
        by_contra hm
        exact hnone ⟨m, hden, hm⟩
      subst hm
      have hfalse := hrestricts "" (String.ofList (trim form.servicePrefix)) 0 0 rfl
      rw [hrule, unrestricted hblank (.inr ⟨false, (denotes_iff.mp hden).1⟩)] at hfalse
      cases hfalse
  · intro h user w c
    have hensures := (create_ensures user form w).run c
    obtain hfail | ⟨hstorable, row, hrow, hrule⟩ := hensures
    · exact .inl hfail
    · obtain hnot | ⟨m, hden, hm⟩ := h
      · exact absurd hstorable hnot
      · refine .inr ⟨row, m, hrow, hden, ?_⟩
        intro classification service cost confidence hbelow
        rw [hrule]
        exact restricted hblank hden hm classification service confidence hbelow

end

/-- The form as it is offered, with another text for the threshold. -/
def formWith (minCost : String) : Form :=
  ⟨"hypertrace/", minCost, .throttle, .tail _ (.head _), "100", false⟩

theorem formWith_storable (minCost : String) : PriorityStorable (formWith minCost) := by
  refine ⟨100, denotes_iff.mpr ⟨?_, fun h => by cases h⟩, rfl⟩
  show number "100" = .finite (100 : ℤ)
  decide +kernel

theorem threshold_kept_iff_point :
    ThresholdKept ⟨"sre", "sre"⟩ (formWith "0.05") (World.empty ℚ) (sound id) := by
  refine (threshold_kept_iff (K := ℚ) (formWith "0.05") ?_).mpr (.inr ⟨number "0.05", ?_, ?_⟩)
    _ _ _
  · decide +kernel
  · exact denotes_iff.mpr ⟨rfl, by decide +kernel⟩
  · decide +kernel

/-- **A decimal comma**: the policy is created, and throttles what costs nothing. -/
theorem comma_threshold_dropped :
    ¬ ThresholdKept ⟨"sre", "sre"⟩ (formWith "0,05") (World.empty ℚ) (sound id)
      ∧ policyMatches (sentRule (formWith "0,05")) "misconfiguration_or_waste" "hypertrace/victim"
        (0 : ℚ) 1 = .ok true := by
  have hnumber : number "0,05" = .nan := by decide +kernel
  constructor
  · intro h
    obtain ⟨e, herr⟩ | ⟨row, m, -, hden, -⟩ := h
    · obtain ⟨row, hrun, -⟩ := create_sound (K := ℚ) (w := World.empty ℚ)
        (rfl : (⟨"sre", "sre"⟩ : Api.User).role = "sre") (formWith_storable "0,05")
      rw [hrun] at herr
      cases herr
    · have hm := denotes_iff.mp hden
      exact hm.2 (hm.1.symm.trans hnumber)
  · decide +kernel

end HyperTrace.Proof
