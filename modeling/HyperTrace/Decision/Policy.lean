import HyperTrace.Common.Messaging
import HyperTrace.Effect.Search

/-!
# Policy evaluation and authority

`policy.py`, `authority.py` and `config.py` of the decision engine. A rule is a
JSON object nobody validated, so every comparison in `policyMatches` may raise.
-/

namespace HyperTrace.Decision

variable {K : Type} [Scalar K]

structure Config where
  protectedNamespacePrefixes : List String
  recentDeploymentWindowMinutes : ℤ
  securitySignalWindowMinutes : ℤ

def autonomousThreshold : K := 0.85
def approvalThreshold : K := 0.60

/-- The decision engine's own copy of the detector's function. -/
def authorityFor (score : K) : Authority :=
  if score ≥ autonomousThreshold then .autonomous
  else if score ≥ approvalThreshold then .approval
  else .alertOnly

/-- `rule_dsl.get(key)`, when it is not `None`. -/
def getNotNone (ruleDsl : List (String × Json K)) (key : String) : Option (Json K) :=
  match Json.get ruleDsl key with
  | some .null => none
  | v => v

/-- `rule_dsl.get(key)`, when it is truthy. -/
def getTruthy (ruleDsl : List (String × Json K)) (key : String) : Option (Json K) :=
  (Json.get ruleDsl key).filter Json.truthy

def policyMatches (ruleDsl : List (String × Json K)) (classification service : String)
    (costPerHour confidence : K) : Except Err Bool := do
  if let some minConfidence := getNotNone ruleDsl "min_confidence" then
    if ← Json.ltNumber confidence minConfidence then
      return false
  if let some classifications := getTruthy ruleDsl "classifications" then
    if !(← Json.containsStr classification classifications) then
      return false
  if let some minCost := getNotNone ruleDsl "min_cost_per_hour" then
    if ← Json.ltNumber costPerHour minCost then
      return false
  if let some prefix_ := getTruthy ruleDsl "service_prefix" then
    if !(← Json.startsWith service prefix_) then
      return false
  return true

def isProtected (service : String) (protectedPrefixes : List String) : Bool :=
  protectedPrefixes.any (startswith service)

/-- The loop of `_find_matching_policy` over the rows it read. -/
def firstMatch (classification service : String) (costPerHour confidence : K) :
    List (PolicyRow K) → Except Err (Option (PolicyRow K))
  | [] => .ok none
  | row :: rows => do
      if ← policyMatches row.ruleDsl classification service costPerHour confidence then
        return some row
      firstMatch classification service costPerHour confidence rows

/-- It is a search whose test may raise. -/
theorem firstMatch_eq (classification service : String) (costPerHour confidence : K)
    (rows : List (PolicyRow K)) :
    firstMatch classification service costPerHour confidence rows = rows.findM? fun row =>
      policyMatches row.ruleDsl classification service costPerHour confidence := by
  induction rows with
  | nil => rfl
  | cons row rows ih =>
      rw [firstMatch, List.findM?, ih]
      refine congrArg (_ >>= ·) (funext fun found => ?_)
      cases found <;> rfl

/-- The row found is one of the rows, and it matches. -/
theorem firstMatch_spec {classification service : String} {costPerHour confidence : K}
    {rows : List (PolicyRow K)} {row : PolicyRow K}
    (h : firstMatch classification service costPerHour confidence rows = .ok (some row)) :
    ∃ pre post, rows = pre ++ row :: post
      ∧ policyMatches row.ruleDsl classification service costPerHour confidence = .ok true
      ∧ ∀ r ∈ pre, policyMatches r.ruleDsl classification service costPerHour confidence
          = .ok false := by
  rw [firstMatch_eq] at h
  exact Effect.findM?_eq_some h

end HyperTrace.Decision
