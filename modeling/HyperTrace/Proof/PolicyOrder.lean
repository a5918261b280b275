import HyperTrace.Proof.Policies

/-!
# The order of the policies

The engine reads the policies in the order of their priority and goes by the first
one that does not simply fail to match; the API lists them in the opposite order.
Rows of equal priority come in any order, so what the engine does is determined by
the table only if the rows it can come to first agree (`applied_unique_iff`); and what
is listed first is what is applied only if there is nothing to choose
(`listing_agrees_iff`).
-/

namespace HyperTrace.Proof

open HyperTrace Effect Decision

variable {K : Type} [Scalar K]

/-- What of an anomaly a rule is compared with. -/
structure Subject (K : Type) where
  classification : String
  service : String
  costPerHour : K
  confidence : K

namespace Subject

/-- What a stored rule has to say about it. -/
def rule (s : Subject K) (row : PolicyRow K) : Except Err Bool :=
  policyMatches row.ruleDsl s.classification s.service s.costPerHour s.confidence

/-- The engine's loop, over rows in a given order. -/
def firstMatch (s : Subject K) (rows : List (PolicyRow K)) : Except Err (Option (PolicyRow K)) :=
  Decision.firstMatch s.classification s.service s.costPerHour s.confidence rows

theorem firstMatch_eq (s : Subject K) (rows : List (PolicyRow K)) :
    s.firstMatch rows = rows.findM? s.rule := Decision.firstMatch_eq ..

/-- The engine may come to the row: it does not simply fail to match, and none before it either. -/
structure Decides (s : Subject K) (rows : List (PolicyRow K)) (row : PolicyRow K) : Prop where
  mem : row ∈ rows
  decides : s.rule row ≠ .ok false
  least : ∀ q ∈ rows, s.rule q ≠ .ok false → row.priority ≤ q.priority

/-- The loop comes to one of these rows, or finds nothing because no rule does anything else. -/
theorem firstMatch_cases (s : Subject K) (tie : Nat → Nat) (policies : List (PolicyRow K)) :
    ((∀ q ∈ policies, s.rule q = .ok false)
        ∧ s.firstMatch (orderBy PolicyRow.priority tie policies) = .ok none)
      ∨ ∃ row, s.Decides policies row
        ∧ s.firstMatch (orderBy PolicyRow.priority tie policies)
          = (s.rule row).map fun _ => some row := by
  have hsorted := orderBy_sorted PolicyRow.priority tie policies
  have hmem : ∀ q, q ∈ orderBy PolicyRow.priority tie policies ↔ q ∈ policies :=
    fun q => mem_orderBy
  generalize orderBy PolicyRow.priority tie policies = rows at hsorted hmem ⊢
  rw [firstMatch_eq]
  rcases findM?_cases s.rule rows with ⟨hall, heq⟩ | ⟨before, row, after, hrow⟩
  · exact .inl ⟨fun q hq => hall q ((hmem q).mpr hq), heq⟩
  · have hsplit := hrow.split
    subst hsplit
    refine .inr ⟨row, ⟨(hmem row).mp (by simp), hrow.ends, ?_⟩, hrow.answer⟩
    intro q hq hqr
    rcases List.mem_append.mp ((hmem q).mpr hq) with hq | hq
    · exact absurd (hrow.missed q hq) hqr
    · rcases List.mem_cons.mp hq with rfl | hq
      · exact le_refl _
      · exact (List.pairwise_cons.mp (List.pairwise_append.mp hsorted).2.1).1 q hq

/-- What the engine does when it comes to the row: it raises, or it knows what to do. -/
def verdictOf (s : Subject K) (row : PolicyRow K) : Except Err (Option (String × Bool)) :=
  (s.rule row).map fun _ => some (row.action, requiresApproval row.ruleDsl)

/-- The action and the `requires_approval` that `_find_matching_policy` returns. -/
def applied (s : Subject K) (tie : Nat → Nat) (w : World K) :
    Except Err (Option (String × Bool)) :=
  ((findMatchingPolicy s.classification s.service s.costPerHour s.confidence).run exec
    (sound tie) w).1.map (Option.map fun found => (found.2, requiresApproval found.1))

theorem applied_eq (s : Subject K) (tie : Nat → Nat) (w : World K) :
    s.applied tie w = (s.firstMatch (orderBy PolicyRow.priority tie w.policies)).map
      (Option.map fun row => (row.action, requiresApproval row.ruleDsl)) := by
  unfold applied
  rw [findMatchingPolicy_eq]
  change (Except.map _ (Except.map _ (s.firstMatch _))) = _
  cases s.firstMatch (orderBy PolicyRow.priority tie w.policies) with
  | error e => rfl
  | ok found => cases found <;> rfl

theorem applied_cases (s : Subject K) (tie : Nat → Nat) (w : World K) :
    ((∀ q ∈ w.policies, s.rule q = .ok false) ∧ s.applied tie w = .ok none)
      ∨ ∃ row, s.Decides w.policies row ∧ s.applied tie w = s.verdictOf row := by
  rw [applied_eq]
  rcases s.firstMatch_cases tie w.policies with ⟨hall, heq⟩ | ⟨row, hrow, heq⟩
  · exact .inl ⟨hall, by rw [heq]; rfl⟩
  · refine .inr ⟨row, hrow, ?_⟩
    rw [heq, verdictOf]
    cases s.rule row <;> rfl

/-- The database may return any of these rows before the others. -/
theorem exists_applied {s : Subject K} {w : World K} {row : PolicyRow K}
    (h : s.Decides w.policies row) : ∃ tie, s.applied tie w = s.verdictOf row := by
  obtain ⟨tie, before, after, hsplit, hbefore⟩ := exists_tie_first PolicyRow.priority h.mem
  have hfalse : ∀ q ∈ before, s.rule q = .ok false := by
    intro q hq
    by_contra hqr
    have hqmem : q ∈ w.policies := mem_orderBy.mp (by rw [hsplit]; exact List.mem_append_left _ hq)
    have hle := h.least q hqmem hqr
    have hlt := hbefore q hq
    omega
  refine ⟨tie, ?_⟩
  rw [applied_eq, hsplit, firstMatch_eq, findM?_append hfalse, findM?_cons_of_ne h.decides]
  unfold verdictOf
  cases s.rule row <;> rfl

/-- **When the applied policy is a function of the table**, and not of the order of the rows. -/
theorem applied_unique_iff (s : Subject K) (w : World K) :
    (∀ tie tie', s.applied tie w = s.applied tie' w)
      ↔ ∀ row row', s.Decides w.policies row → s.Decides w.policies row' →
        s.verdictOf row = s.verdictOf row' := by
  constructor
  · intro h row row' hrow hrow'
    obtain ⟨tie, htie⟩ := exists_applied hrow
    obtain ⟨tie', htie'⟩ := exists_applied hrow'
    rw [← htie, ← htie', h tie tie']
  · intro h tie tie'
    rcases s.applied_cases tie w with ⟨hall, heq⟩ | ⟨row, hrow, heq⟩
    · rcases s.applied_cases tie' w with ⟨-, heq'⟩ | ⟨row', hrow', heq'⟩
      · rw [heq, heq']
      · exact absurd (hall row' hrow'.mem) hrow'.decides
    · rcases s.applied_cases tie' w with ⟨hall', -⟩ | ⟨row', hrow', heq'⟩
      · exact absurd (hall' row hrow.mem) hrow.decides
      · rw [heq, heq', h row row' hrow hrow']

end Subject

/-- Two policies as the API stores them when nothing but the action is given. -/
def defaults : World ℚ :=
  { World.empty ℚ with
    policies := [⟨0, "default", [], "*", "alert_only", 0⟩, ⟨1, "default", [], "*", "throttle", 0⟩] }

def waste : Subject ℚ := ⟨"misconfiguration_or_waste", "shop/victim", 2, 0.9⟩

theorem applied_depends_on_order :
    waste.applied id defaults = .ok (some ("alert_only", false))
      ∧ waste.applied (fun i => 1 - i) defaults = .ok (some ("throttle", false)) := by
  constructor <;> decide +kernel

/-! ## What is listed -/

section Listing

omit [Scalar K] in
theorem policyOut_ok {row : PolicyRow K} {p : Api.PolicyOut K} (h : Api.policyOut row = .ok p) :
    p.ruleDsl = row.ruleDsl ∧ p.priority = row.priority := by
  unfold Api.policyOut at h
  cases ha : RemediationAction.parse row.action with
  | error e => rw [ha] at h; cases h
  | ok action => rw [ha] at h; cases h; exact ⟨rfl, rfl⟩

omit [Scalar K] in
/-- Every row is listed, in its place. -/
theorem mapM_policyOut {rows : List (PolicyRow K)} {listed : List (Api.PolicyOut K)}
    (h : rows.mapM Api.policyOut = .ok listed) :
    listed.map (fun p => p.priority) = rows.map PolicyRow.priority
      ∧ (∀ p ∈ listed, ∃ row ∈ rows, Api.policyOut row = .ok p)
      ∧ ∀ row ∈ rows, ∃ p ∈ listed, Api.policyOut row = .ok p := by
  induction rows generalizing listed with
  | nil => cases h; simp
  | cons row rows ih =>
      rw [List.mapM_cons] at h
      cases hrow : Api.policyOut row with
      | error e => rw [hrow] at h; cases h
      | ok p =>
          cases hrest : rows.mapM Api.policyOut with
          | error e => rw [hrow, hrest] at h; cases h
          | ok rest =>
              rw [hrow, hrest] at h
              cases h
              obtain ⟨hmap, hto, hof⟩ := ih hrest
              refine ⟨?_, List.forall_mem_cons.mpr ⟨⟨row, by simp, hrow⟩, ?_⟩,
                List.forall_mem_cons.mpr ⟨⟨p, by simp, hrow⟩, ?_⟩⟩
              · rw [List.map_cons, List.map_cons, hmap, (policyOut_ok hrow).2]
              · intro q hq
                obtain ⟨r, hr, hrq⟩ := hto q hq
                exact ⟨r, List.mem_cons_of_mem _ hr, hrq⟩
              · intro r hr
                obtain ⟨q, hq, hrq⟩ := hof r hr
                exact ⟨q, List.mem_cons_of_mem _ hq, hrq⟩

namespace Subject

/-- The listed policy matches. -/
def listedMatch (s : Subject K) (p : Api.PolicyOut K) : Bool :=
  match policyMatches p.ruleDsl s.classification s.service s.costPerHour s.confidence with
  | .ok b => b
  | .error _ => false

theorem listedMatch_iff {s : Subject K} {row : PolicyRow K} {p : Api.PolicyOut K}
    (h : Api.policyOut row = .ok p) : s.listedMatch p = true ↔ s.rule row = .ok true := by
  unfold listedMatch rule
  rw [(policyOut_ok h).1]
  cases policyMatches row.ruleDsl s.classification s.service s.costPerHour s.confidence <;> simp

/--
A second policy matches, and the engine comes to the first one: no rule with a smaller
priority number raises.
-/
def Contested (s : Subject K) (policies : List (PolicyRow K)) : Prop :=
  ∃ row ∈ policies, ∃ row' ∈ policies, row.priority < row'.priority
    ∧ s.rule row = .ok true ∧ s.rule row' = .ok true
    ∧ ∀ q ∈ policies, q.priority < row.priority → ∃ b, s.rule q = .ok b

/-- The first match in the listing has the largest priority number of all that match. -/
theorem find_listed {s : Subject K} {tie : Nat → Nat} {policies : List (PolicyRow K)}
    {listed : List (Api.PolicyOut K)} (h : Api.listPolicies tie policies = .ok listed)
    {row : PolicyRow K} (hrow : row ∈ policies) (hmatch : s.rule row = .ok true) :
    ∃ p, listed.find? s.listedMatch = some p
      ∧ (∃ r ∈ policies, Api.policyOut r = .ok p ∧ s.rule r = .ok true)
      ∧ row.priority ≤ p.priority := by
  obtain ⟨hmap, hto, hof⟩ := mapM_policyOut h
  have hdesc : listed.Pairwise fun a b => b.priority ≤ a.priority := by
    have hsorted := orderBy_sorted (fun row : PolicyRow K => - row.priority) tie policies
    have hrows : (listed.map fun p => p.priority).Pairwise fun a b => b ≤ a := by
      rw [hmap, List.pairwise_map]
      exact hsorted.imp fun hab => by omega
    exact List.pairwise_map.mp hrows
  obtain ⟨q, hq, hqrow⟩ := hof row (mem_orderBy.mpr hrow)
  obtain ⟨p, hp⟩ := Option.isSome_iff_exists.mp
    (List.find?_isSome.mpr ⟨q, hq, (listedMatch_iff hqrow).mpr hmatch⟩)
  obtain ⟨hpmatch, before, after, rfl, hbefore⟩ := List.find?_eq_some_iff_append.mp hp
  obtain ⟨r, hr, hrp⟩ := hto p (by simp)
  refine ⟨p, hp, ⟨r, mem_orderBy.mp hr, hrp, (listedMatch_iff hrp).mp hpmatch⟩, ?_⟩
  rw [← (policyOut_ok hqrow).2]
  rcases List.mem_append.mp hq with hq | hq
  · have hno := hbefore q hq
    rw [(listedMatch_iff hqrow).mpr hmatch] at hno
    cases hno
  · rcases List.mem_cons.mp hq with rfl | hq
    · exact le_refl _
    · exact (List.pairwise_cons.mp (List.pairwise_append.mp hdesc).2.1).1 q hq

/--
**When the order shown is the order applied**: the row the engine goes by is the first
match in the listing, unless there is more than one match to choose from.
-/
theorem listing_agrees_iff (s : Subject K) {policies : List (PolicyRow K)}
    (hprio : (policies.map PolicyRow.priority).Nodup) (tie tie' : Nat → Nat)
    {listed : List (Api.PolicyOut K)} (hlist : Api.listPolicies tie' policies = .ok listed) :
    (∀ row, s.firstMatch (orderBy PolicyRow.priority tie policies) = .ok (some row) →
        ∃ p, listed.find? s.listedMatch = some p ∧ Api.policyOut row = .ok p)
      ↔ ¬ s.Contested policies := by
  have hinj := List.inj_on_of_nodup_map hprio
  constructor
  · intro h hcon
    obtain ⟨row, hrow, row', hrow', hlt, hmatch, hmatch', hraise⟩ := hcon
    rcases s.firstMatch_cases tie policies with ⟨hall, -⟩ | ⟨r, hr, heq⟩
    · rw [hall row hrow] at hmatch
      cases hmatch
    have hle : r.priority ≤ row.priority := hr.least row hrow (by rw [hmatch]; simp)
    -- the engine stops at a match, and the listing begins with a later one
    have hrm : s.rule r = .ok true := by
      rcases lt_or_eq_of_le hle with hless | hsame
      · obtain ⟨b, hb⟩ := hraise r hr.mem hless
        cases b with
        | true => exact hb
        | false => exact absurd hb hr.decides
      · rw [hinj hr.mem hrow hsame]
        exact hmatch
    obtain ⟨p, hp, hrp⟩ := h r (by rw [heq, hrm]; rfl)
    obtain ⟨p', hp', -, hle'⟩ := find_listed hlist hrow' hmatch'
    rw [hp] at hp'
    cases hp'
    rw [(policyOut_ok hrp).2] at hle'
    omega
  · intro hcon row hfirst
    rcases s.firstMatch_cases tie policies with ⟨-, heq⟩ | ⟨r, hr, heq⟩
    · rw [heq] at hfirst
      cases hfirst
    rw [heq] at hfirst
    have hrm : s.rule r = .ok true ∧ r = row := by
      cases hb : s.rule r with
      | error e => rw [hb] at hfirst; cases hfirst
      | ok b =>
          rw [hb] at hfirst
          cases hfirst
          cases b with
          | true => exact ⟨rfl, rfl⟩
          | false => exact absurd hb hr.decides
    obtain ⟨hrm, rfl⟩ := hrm
    obtain ⟨p, hp, ⟨r', hr', hrp', hrm'⟩, hle⟩ := find_listed hlist hr.mem hrm
    rw [(policyOut_ok hrp').2] at hle
    rcases lt_or_eq_of_le hle with hlt | hsame
    · refine absurd ⟨r, hr.mem, r', hr', hlt, hrm, hrm', ?_⟩ hcon
      intro q hq hless
      by_contra hb
      have := hr.least q hq (fun hfalse => hb ⟨false, hfalse⟩)
      omega
    · exact ⟨p, hp, hinj hr.mem hr' hsame ▸ hrp'⟩

end Subject

end Listing

/-- A rule that keeps the shop from being touched, before a catch-all. -/
def guarded : List (PolicyRow ℚ) :=
  [⟨0, "default", [("service_prefix", .str "shop/")], "*", "alert_only", 1⟩,
    ⟨1, "default", [], "*", "throttle", 100⟩]

theorem listing_disagrees :
    (waste.firstMatch (orderBy PolicyRow.priority id guarded)).map (Option.map PolicyRow.priority)
        = .ok (some 1)
      ∧ (Api.listPolicies id guarded).map
          (fun listed => (listed.find? waste.listedMatch).map fun p => p.priority)
        = .ok (some 100)
      ∧ (guarded.map PolicyRow.priority).Nodup := by
  refine ⟨?_, ?_, ?_⟩ <;> decide +kernel

theorem listing_agrees_iff_guarded :
    ∃ listed, Api.listPolicies id guarded = .ok listed ∧ (guarded.map PolicyRow.priority).Nodup
      ∧ ((∀ row, waste.firstMatch (orderBy PolicyRow.priority id guarded) = .ok (some row) →
          ∃ p, listed.find? waste.listedMatch = some p ∧ Api.policyOut row = .ok p)
        ↔ ¬ waste.Contested guarded) := by
  have hlist : ∃ listed, Api.listPolicies id guarded = .ok listed := ⟨_, rfl⟩
  obtain ⟨listed, hlist⟩ := hlist
  have hnodup : (guarded.map PolicyRow.priority).Nodup := by decide
  exact ⟨listed, hlist, hnodup, waste.listing_agrees_iff hnodup id id hlist⟩

end HyperTrace.Proof
