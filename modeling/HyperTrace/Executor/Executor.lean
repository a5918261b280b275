import HyperTrace.Executor.K8sActions

/-!
# The remediation executor

`main.py` of the executor: the gates, the ledger entry of every outcome, and
`handle`, which answers one `remediation.requested` message. It is the only
component that writes to the cluster.
-/

namespace HyperTrace.Executor

variable {K : Type}

structure Config where
  protectedNamespacePrefixes : List String
  maxActionsPerWindow : ℤ
  rateLimitWindowMinutes : ℤ
  maxActionsPerService : ℤ
  serviceRateLimitWindowMinutes : ℤ
  rollbackWindowMinutes : ℤ

def executedResults : List ActionResult := [.executed, .rolledBack]

def isProtected (cfg : Config) (service : String) : Bool :=
  cfg.protectedNamespacePrefixes.any (startswith service)

/-- The ceiling that was hit. -/
inductive Ceiling where
  | global
  | perService
  deriving DecidableEq, Repr

def rateLimitExceeded (cfg : Config) (service : String) : Py K (Option Ceiling) := do
  let now : Time ← call .now
  let globalSince := now - minutes cfg.rateLimitWindowMinutes
  let serviceSince := now - minutes cfg.serviceRateLimitWindowMinutes
  let globalCount : Nat ← call (.countActions globalSince executedResults none)
  if (globalCount : ℤ) ≥ cfg.maxActionsPerWindow then
    return some .global
  let serviceCount : Nat ← call (.countActions serviceSince executedResults (some service))
  if (serviceCount : ℤ) ≥ cfg.maxActionsPerService then
    return some .perService
  return none

/-- The message a thread is handling, with the keys `handle` insists on. -/
structure Request where
  decisionId : Uuid
  anomalyId : Option Uuid
  service : String
  action : String
  mode : String
  targetActionId : Option Uuid

/-- `message[key]`, of a key a forged message may lack. -/
def required {α : Type} (key : String) : Option α → Except Err α
  | some v => .ok v
  | none => .error (.keyError key)

/-- The first lines of `handle`. -/
def parseRequest (message : RemediationMessage) : Except Err Request := do
  let decisionId ← required "action_id" message.actionId
  let service ← required "service" message.service
  let action ← required "action" message.action
  return ⟨decisionId, message.anomalyId, service, action, message.mode.getD "autonomous",
    message.targetActionId⟩

/-- The optional arguments of `record`. -/
structure Recorded (K : Type) where
  priorState : Option (Json K) := none
  appliedState : Option String := none
  rollbackRef : Option Uuid := none
  setRollbackDeadline : Bool := false

/-- The row `_record` appends. -/
def outcomeRow (cfg : Config) (id : Uuid) (now : Time) (req : Request) (result : ActionResult)
    (extra : Recorded K) : ActionRow K where
  id := id
  anomalyId := req.anomalyId
  parentActionId := some req.decisionId
  rollbackRef := extra.rollbackRef
  actionType := req.action
  mode := req.mode
  executedAt := now
  result := result
  target := some req.service
  priorState := extra.priorState
  appliedState := extra.appliedState
  rollbackDeadline :=
    if extra.setRollbackDeadline then some (now + minutes cfg.rollbackWindowMinutes) else none

def record (cfg : Config) (req : Request) (result : ActionResult) (extra : Recorded K := {}) :
    Py K Unit := do
  let now ← call .now
  let actionId ← call .uuid4
  call (.insertAction (outcomeRow cfg actionId now req result extra))

/-- `not target.prior_state`: nothing recorded, or an empty object. -/
def priorState [Scalar K] (target : ActionRow K) : Option (Json K) :=
  target.priorState.filter Json.truthy

/-- `deadline is not None and datetime.now(timezone.utc) > deadline` -/
def pastDeadline (deadline : Option Time) : Py K Bool := do
  match deadline with
  | none => return false
  | some deadline =>
      let now : Time ← call .now
      return decide (now > deadline)

/-- The branch of `handle` for rollbacks; `target_action_id` is read before anything else. -/
def handleRollback [Scalar K] (cfg : Config) (req : Request) : Py K Unit := do
  let targetActionId ← lift (required "target_action_id" req.targetActionId)
  match ← call (.actionById targetActionId) with
  | none => record cfg req .rollbackFailedNoReference
  | some target =>
      match priorState target with
      | none => record cfg req .rollbackFailedNoReference
      | some prior =>
          if ← pastDeadline (ActionRow.rollbackDeadline target) then
            record cfg req .rollbackWindowExpired { rollbackRef := some (ActionRow.id target) }
          else
            let outcome ← rollback (Json.dumps prior)
            record cfg req outcome.status { rollbackRef := some (ActionRow.id target) }

/-- The rows a throttle or freeze leaves behind. -/
def recordOutcome (cfg : Config) (req : Request) (outcome : Outcome K) : Py K Unit :=
  record cfg req outcome.status
    { priorState := outcome.rollbackRef.map Json.loads
      appliedState := some outcome.reason
      setRollbackDeadline := decide (outcome.status = .executed) }

def handle [Scalar K] (cfg : Config) (message : RemediationMessage) : Py K Unit := do
  let req ← lift (parseRequest message)
  if req.action = "rollback" then
    handleRollback cfg req
    return
  if isProtected cfg req.service then
    record cfg req .blockedByProtectedFloor
    return
  match ← rateLimitExceeded cfg req.service with
  | some .global => record cfg req .blockedByGlobalRateLimit
  | some .perService => record cfg req .blockedByPerServiceRateLimit
  | none =>
      if req.action = RemediationAction.throttle.value then
        let outcome ← throttle req.service
        recordOutcome cfg req outcome
      else if req.action = RemediationAction.freezeScaling.value then
        let outcome ← freezeScaling req.service
        recordOutcome cfg req outcome
      else
        record cfg req (.unsupportedAction req.action)

end HyperTrace.Executor
