import HyperTrace.Decision.Policy

/-!
# The decision engine

`main.py` of the decision and policy engine: the three message handlers, the joint
classification, and the cascade that decides cause and authority. Every decision
is one appended row; only a `dispatched` row is followed by a message.
-/

namespace HyperTrace.Decision

variable {K : Type} [Scalar K]

def deploymentLikeEvents : List String :=
  ["deployment_scaled", "pod_restarted", "pod_created", "hpa_scaled"]

/-- `f"{namespace}/{pod}" if pod else namespace`; a missing namespace prints as `None`. -/
def lifecycleKey (message : LifecycleEvent) : Option String :=
  match message.pod with
  | some pod =>
      if pod = "" then message.namespace_ else some (message.namespace_.getD "None" ++ "/" ++ pod)
  | none => message.namespace_

def handleLifecycle (message : LifecycleEvent) : Py K Unit := do
  if message.eventType ∉ deploymentLikeEvents then
    return
  match lifecycleKey message with
  | none => return
  | some service =>
      if service = "" then
        return
      let now ← call .now
      call (.setRecentEvent service now)

def recentDeployment (cfg : Config) (service : String) : Py K Bool := do
  match ← call (.getRecentEvent service) with
  | none => return false
  | some lastEvent =>
      let now : Time ← call .now
      return decide (now - lastEvent ≤ minutes cfg.recentDeploymentWindowMinutes)

def handleSecuritySignal (message : SecuritySignal) : Py K Unit := do
  let now ← call .now
  call (.setRecentSecurity message.service (now, message.rule))

def recentSecuritySignal (cfg : Config) (service : String) : Py K (Option String) := do
  match ← call (.getRecentSecurity service) with
  | none => return none
  | some (seenAt, rule) =>
      let now : Time ← call .now
      if now - seenAt > minutes cfg.securitySignalWindowMinutes then
        return none
      return some rule

/-- Traffic growth is final; otherwise a security signal outranks a deployment. -/
def classify (cfg : Config) (service : String) (detectorVerdict : Option AnomalyClassification) :
    Py K (AnomalyClassification × ClassificationReason) := do
  if detectorVerdict = some .legitimateTrafficGrowth then
    return (.legitimateTrafficGrowth, .trafficExplains)
  match ← recentSecuritySignal cfg service with
  | some rule => return (.suspectedAbuse, .securityRule rule)
  | none =>
      if ← recentDeployment cfg service then
        return (.likelyBugFromDeployment, .recentDeployment)
      return (.misconfigurationOrWaste, .nothing)

def findMatchingPolicy (classification service : String) (costPerHour confidence : K) :
    Py K (Option (List (String × Json K) × String)) := do
  let rows ← call .selectPolicies
  let row ← lift (firstMatch classification service costPerHour confidence rows)
  return row.map fun row => (row.ruleDsl, row.action)

/-- The row `_record_action` appends. -/
def decisionRow (id anomalyId : Uuid) (action : RemediationAction) (now : Time)
    (result : ActionResult) (service mode : String) : ActionRow K where
  id := id
  anomalyId := some anomalyId
  parentActionId := none
  rollbackRef := none
  actionType := action.value
  mode := mode
  executedAt := now
  result := result
  target := some service
  priorState := none
  appliedState := none
  rollbackDeadline := none

def recordAction (anomalyId : Uuid) (action : RemediationAction) (result : ActionResult)
    (service : String) (mode : String := "autonomous") : Py K Uuid := do
  let actionId ← call .uuid4
  let now ← call .now
  call (.insertAction (decisionRow actionId anomalyId action now result service mode))
  return actionId

/-- `float(message.get("confidence") or message["evidence"].get("confidence") or 0.0)` -/
def scoreConfidence (message : AnomalyMessage K) : K :=
  match message.confidence with
  | some x => if x ≠ 0 then x else message.evidence.confidence.getD 0
  | none => message.evidence.confidence.getD 0

/-- The request `_handle_anomaly` publishes. -/
def remediationRequest (actionId anomalyId : Uuid) (service action : String) :
    RemediationMessage where
  actionId := some actionId
  anomalyId := some anomalyId
  service := some service
  action := some action
  mode := some "autonomous"
  targetActionId := none

def handleAnomaly (cfg : Config) (message : AnomalyMessage K) : Py K Unit := do
  let anomalyId := message.id
  let service := message.service
  let costPerHour := message.evidence.value.getD 0
  let confidence := scoreConfidence message
  let (classification, reason) ← classify cfg service message.classification
  let mergedEvidence := { message.evidence with classificationReason := some reason }
  call (.updateAnomaly anomalyId classification mergedEvidence)
  if classification = .legitimateTrafficGrowth then
    return
  match ← findMatchingPolicy classification.value service costPerHour confidence with
  | none => return
  | some (ruleDsl, action) =>
      let actionEnum ← lift (RemediationAction.parse action)
      if isProtected service cfg.protectedNamespacePrefixes then
        let _ ← recordAction anomalyId actionEnum .blockedByProtectedFloor service
        return
      if actionEnum = .alertOnly then
        let _ ← recordAction anomalyId actionEnum .alertOnlyNoActionTaken service
        return
      let authority := authorityFor confidence
      if authority = .alertOnly then
        let _ ← recordAction anomalyId actionEnum .alertOnlyLowConfidence service
        return
      if authority = .approval ∨ (getTruthy ruleDsl "requires_approval").isSome then
        let _ ← recordAction anomalyId actionEnum .pendingApproval service "approved"
        return
      let actionId ← recordAction anomalyId actionEnum .dispatched service
      publish (.remediation (remediationRequest actionId anomalyId service action))

end HyperTrace.Decision
