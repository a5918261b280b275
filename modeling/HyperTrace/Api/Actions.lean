import HyperTrace.Common.Messaging

/-!
# The API's write endpoints

`main.py` of the BFF, as far as it writes: approve, rollback, and the policy
endpoints, each behind the `sre` role. The API never touches the cluster; approve
and rollback append a row and publish a request for the executor.
-/

namespace HyperTrace.Api

variable {K : Type}

/-- What `get_current_user` decodes from the token. -/
structure User where
  username : String
  role : String
  deriving DecidableEq, Repr

def requireSre (user : User) : Py K Unit := do
  if user.role ≠ "sre" then
    throw (.http 403 "This action requires the sre role")

/-- The row `_append_action` appends. -/
def apiRow (id : Uuid) (anomalyId parentActionId : Option Uuid) (actionType : String)
    (now : Time) (result : ActionResult) (service mode : String) (rollbackRef : Option Uuid) :
    ActionRow K where
  id := id
  anomalyId := anomalyId
  parentActionId := parentActionId
  rollbackRef := rollbackRef
  actionType := actionType
  mode := mode
  executedAt := now
  result := result
  target := some service
  priorState := none
  appliedState := none
  rollbackDeadline := none

def appendAction (anomalyId parentActionId : Option Uuid) (actionType : String)
    (result : ActionResult) (service : String) (mode : String := "approved")
    (rollbackRef : Option Uuid := none) : Py K Uuid := do
  let actionId ← call .uuid4
  let now ← call .now
  call (.insertAction
    (apiRow actionId anomalyId parentActionId actionType now result service mode rollbackRef))
  return actionId

/-- Publish a request; a failure is appended as its own row and answered with a 503. -/
def publishOrFail (actionId : Uuid) (service actionType : String) (message : RemediationMessage) :
    Py K Unit := do
  try
    publish (.remediation message)
  catch _ =>
    let _ ← appendAction message.anomalyId (some actionId) actionType .dispatchFailed service
    throw (.http 503 "Could not reach the remediation queue; no action was taken.")

/-- The request `approve_action` publishes. -/
def approvalRequest (approvalId anomalyId : Uuid) (service action : String) :
    RemediationMessage where
  actionId := some approvalId
  anomalyId := some anomalyId
  service := some service
  action := some action
  mode := some "approved"
  targetActionId := none

def approveAction (user : User) (anomalyId : Uuid) : Py K Reply := do
  requireSre user
  match ← call (.latestAction anomalyId .pendingApproval) with
  | none => throw (.http 404 "No action pending approval for this anomaly")
  | some row =>
      let service ← call (.anomalyService anomalyId)
      let service : String := Option.getD service ""
      let approvalId ← appendAction (some anomalyId) (some (ActionRow.id row))
        (ActionRow.actionType row) .dispatched service
      publishOrFail approvalId service (ActionRow.actionType row)
        (approvalRequest approvalId anomalyId service (ActionRow.actionType row))
      return .dispatched approvalId

/-- The request `rollback_action` publishes. -/
def rollbackRequest (rollbackId anomalyId targetActionId : Uuid) : RemediationMessage where
  actionId := some rollbackId
  anomalyId := some anomalyId
  service := some ""
  action := some "rollback"
  mode := none
  targetActionId := some targetActionId

def rollbackAction (user : User) (anomalyId : Uuid) : Py K Reply := do
  requireSre user
  match ← call (.latestAction anomalyId .executed) with
  | none => throw (.http 404 "No executed action to roll back for this anomaly")
  | some row =>
      let service : String := (ActionRow.target row).getD ""
      let rollbackId ← appendAction (some anomalyId) (some (ActionRow.id row)) "rollback"
        .dispatched service "approved" (some (ActionRow.id row))
      publishOrFail rollbackId service "rollback"
        (rollbackRequest rollbackId anomalyId (ActionRow.id row))
      return .dispatched rollbackId

/-- `PolicyIn`: only `action` is validated, as a `RemediationAction`. -/
structure PolicyIn (K : Type) where
  orgId : String
  ruleDsl : List (String × Json K)
  scope : String
  action : RemediationAction
  priority : ℤ

structure PolicyOut (K : Type) extends PolicyIn K where
  id : Uuid

/-- One entry of the listing: `RemediationAction(row.action)` may raise. -/
def policyOut (row : PolicyRow K) : Except Err (PolicyOut K) := do
  let action ← RemediationAction.parse row.action
  return {
    id := row.id
    orgId := row.orgId
    ruleDsl := row.ruleDsl
    scope := row.scope
    action := action
    priority := row.priority }

/-- `select(policies).order_by(desc(policies.c.priority))` -/
def listPolicies (tie : Nat → Nat) (policies : List (PolicyRow K)) :
    Except Err (List (PolicyOut K)) :=
  (orderBy (fun row => - row.priority) tie policies).mapM policyOut

def createPolicy (user : User) (policy : PolicyIn K) : Py K Reply := do
  requireSre user
  let policyId ← call .uuid4
  call (.insertPolicy
    { id := policyId
      orgId := policy.orgId
      ruleDsl := policy.ruleDsl
      scope := policy.scope
      action := policy.action.value
      priority := policy.priority })
  return .policy policyId

def deletePolicy (user : User) (policyId : Uuid) : Py K Reply := do
  requireSre user
  let rowcount : Nat ← call (.deletePolicy policyId)
  if rowcount = 0 then
    throw (.http 404 "Policy not found")
  return .none

end HyperTrace.Api
