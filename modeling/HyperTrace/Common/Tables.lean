import HyperTrace.Common.Values

/-!
# Schemas and tables

The message shapes of `hypertrace_common.schemas`, the rows of
`hypertrace_common.tables`, and the constraints of `init.sql` that a statement can
run into. Columns and fields that no modelled function reads or writes are left
out.
-/

namespace HyperTrace

/-- Microseconds since the epoch, UTC: the resolution of `datetime` and of `TIMESTAMPTZ`. -/
abbrev Time := ℤ

/-- `timedelta(minutes=n)` -/
def minutes (n : ℤ) : Time := n * 60000000

/-- `timestamp.weekday()`, Monday being 0. The epoch was a Thursday. -/
def weekday (t : Time) : ℤ := (t / 86400000000 + 3) % 7

/-- `timestamp.hour` -/
def hour (t : Time) : ℤ := t / 3600000000 % 24

/-- A well-formed UUID. `uuid4()` never repeats one. -/
abbrev Uuid := Nat

/-! ## Enumerations -/

/-- `AnomalyClassification` -/
inductive AnomalyClassification where
  | legitimateTrafficGrowth
  | likelyBugFromDeployment
  | misconfigurationOrWaste
  | suspectedAbuse
  | unclassified
  deriving DecidableEq, Repr

def AnomalyClassification.value : AnomalyClassification → String
  | legitimateTrafficGrowth => "legitimate_traffic_growth"
  | likelyBugFromDeployment => "likely_bug_from_deployment"
  | misconfigurationOrWaste => "misconfiguration_or_waste"
  | suspectedAbuse => "suspected_abuse"
  | unclassified => "unclassified"

/-- `RemediationAction` -/
inductive RemediationAction where
  | alertOnly
  | throttle
  | freezeScaling
  | quarantine
  | terminate
  deriving DecidableEq, Repr

def RemediationAction.value : RemediationAction → String
  | alertOnly => "alert_only"
  | throttle => "throttle"
  | freezeScaling => "freeze_scaling"
  | quarantine => "quarantine"
  | terminate => "terminate"

/-- `RemediationAction(text)` -/
def RemediationAction.parse (text : String) : Except Err RemediationAction :=
  if text = "alert_only" then .ok alertOnly
  else if text = "throttle" then .ok throttle
  else if text = "freeze_scaling" then .ok freezeScaling
  else if text = "quarantine" then .ok quarantine
  else if text = "terminate" then .ok terminate
  else .error .valueError

theorem RemediationAction.parse_value (a : RemediationAction) : parse a.value = .ok a := by
  cases a <;> rfl

theorem RemediationAction.value_of_parse {text : String} {a : RemediationAction}
    (h : parse text = .ok a) : a.value = text := by
  unfold parse at h
  split at h
  · cases h; simp [value, *]
  · split at h
    · cases h; simp [value, *]
    · split at h
      · cases h; simp [value, *]
      · split at h
        · cases h; simp [value, *]
        · split at h
          · cases h; simp [value, *]
          · cases h

/-- What `authority_for` returns: "autonomous", "approval" or "alert_only". -/
inductive Authority where
  | autonomous
  | approval
  | alertOnly
  deriving DecidableEq, Repr

/-- The texts the services write into `actions_log.result`; the last one is
`f"unsupported_action_{action}"`. -/
inductive ActionResult where
  | blockedByProtectedFloor
  | alertOnlyNoActionTaken
  | alertOnlyLowConfidence
  | pendingApproval
  | dispatched
  | dispatchFailed
  | executed
  | noOp
  | rolledBack
  | failed
  | rollbackFailedNoReference
  | rollbackWindowExpired
  | blockedByGlobalRateLimit
  | blockedByPerServiceRateLimit
  | unsupportedAction (action : String)
  deriving DecidableEq, Repr

/-! ## Messages -/

/-- `ResourceRef` -/
structure ResourceRef where
  cluster : String
  namespace_ : String
  node : String
  pod : Option String
  container : Option String
  service : Option String

/-- `CostEvent`, as far as the detector reads it. `cpu_cores` may be absent, null or a number. -/
structure CostEvent (K : Type) where
  timestamp : Time
  service : String
  resource : ResourceRef
  costPerHour : K
  cpuCores : Option (Option K)

/-- `TrafficSample` -/
structure TrafficSample (K : Type) where
  timestamp : Time
  service : String
  requestsPerSecond : K

/-- `SecuritySignal`, as far as the decision engine reads it. -/
structure SecuritySignal where
  service : String
  rule : String

/-- `LifecycleEvent`, as far as the decision engine reads it. -/
structure LifecycleEvent where
  eventType : String
  namespace_ : Option String
  pod : Option String

/-- The three z-scores of one reading. -/
structure Scores (K : Type) where
  costZ : K
  cpuZ : K
  trafficZ : K

/-- What `_classify` found, kept beside its verdict. -/
inductive ClassificationReason where
  | nothing
  | trafficExplains
  | securityRule (rule : String)
  | recentDeployment
  deriving DecidableEq, Repr

/-- The evidence blob of an anomaly. -/
structure Evidence (K : Type) where
  metric : String
  value : Option K
  bucket : String
  resource : ResourceRef
  scores : Scores K
  confidence : Option K
  baselineMature : Bool
  costDeltaUsdHr : K
  classificationReason : Option ClassificationReason := none

/-- The `anomaly.flagged` message: the dumped `Anomaly` and its confidence. -/
structure AnomalyMessage (K : Type) where
  id : Uuid
  service : String
  score : K
  classification : Option AnomalyClassification
  evidence : Evidence K
  status : String
  createdAt : Time
  confidence : Option K

/-- The `remediation.requested` message. A forged one may lack any key. -/
structure RemediationMessage where
  actionId : Option Uuid
  anomalyId : Option Uuid
  service : Option String
  action : Option String
  mode : Option String
  targetActionId : Option Uuid
  deriving DecidableEq, Repr

/-! ## Rows -/

/-- `anomalies` -/
structure AnomalyRow (K : Type) where
  id : Uuid
  service : String
  score : K
  classification : AnomalyClassification
  evidence : Evidence K
  status : String
  createdAt : Time
  confidence : K
  baselineMature : Bool
  costDeltaUsdHr : K

/-- `policies`. The API only stores a JSON object as `rule_dsl`. -/
structure PolicyRow (K : Type) where
  id : Uuid
  orgId : String
  ruleDsl : List (String × Json K)
  scope : String
  action : String
  priority : ℤ

/-- `actions_log` -/
structure ActionRow (K : Type) where
  id : Uuid
  anomalyId : Option Uuid
  parentActionId : Option Uuid
  rollbackRef : Option Uuid
  actionType : String
  mode : String
  executedAt : Time
  result : ActionResult
  /-- The `service` key of the `target` object. -/
  target : Option String
  priorState : Option (Json K)
  /-- The `reason` key of the `applied_state` object. -/
  appliedState : Option String
  rollbackDeadline : Option Time

/-- One bucket's running statistics. -/
structure BucketStats (K : Type) where
  n : Nat
  mean : K
  /-- Sum of squared deviations from the running mean. -/
  m2 : K

/-- The counters kept under `_flag_state`. -/
structure FlagState where
  consecutive : Nat
  consecutiveQualifying : Nat
  deriving DecidableEq, Repr

/-- The value of one key of a profile: statistics under a bucket key, counters under `_flag_state`. -/
inductive ProfileEntry (K : Type) where
  | stats (s : BucketStats K)
  | flags (f : FlagState)

/-- `day_of_week_profile` -/
abbrev Profile (K : Type) := String → Option (ProfileEntry K)

/-- `baselines`, the key being `(service, metric)`. -/
structure BaselineRow (K : Type) where
  rollingMean : K
  rollingStddev : K
  profile : Profile K
  updatedAt : Time

/-- `cost_events`, less the column nobody writes. -/
structure CostEventRow (K : Type) where
  time : Time
  service : String
  resourceType : String
  unitRate : K
  costPerHour : K

/-- `CHECK (mode IN ('autonomous', 'approved', 'dry_run'))` -/
def modeAllowed (mode : String) : Bool :=
  mode = "autonomous" || mode = "approved" || mode = "dry_run"

/-- `CHECK (confidence IS NULL OR (confidence BETWEEN 0 AND 1))`; nobody inserts a null. -/
def confidenceAllowed {K : Type} [Scalar K] (confidence : K) : Bool :=
  0 ≤ confidence && confidence ≤ 1

theorem confidenceAllowed_iff {K : Type} [Scalar K] {confidence : K} :
    confidenceAllowed confidence = true ↔ 0 ≤ confidence ∧ confidence ≤ 1 := by
  simp [confidenceAllowed]

end HyperTrace
