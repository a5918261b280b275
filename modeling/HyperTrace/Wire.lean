import HyperTrace.Behaviour.Detector
import HyperTrace.Collector.K8sEvents
import HyperTrace.Collector.KubeletClient
import HyperTrace.Text.Calendar
import HyperTrace.Text.Json

/-!
# Messages as texts

What the services put on the wire and what they make of it: for each message the dict that
`model_dump` gives `RabbitMQClient.publish`, with all its fields, and what the handler of the
other side takes out of the decoded body. A `datetime` is written by `default=str` and read
by `fromisoformat`; an enumeration is the text of its value; an id is the text of a UUID.
-/

namespace HyperTrace.Wire

open JsonText

variable {K : Type}

def routingKeyMetric : String := "metric.raw"
def routingKeyLifecycle : String := "event.lifecycle"
def routingKeyCost : String := "cost.event"
def routingKeyAnomaly : String := "anomaly.flagged"
def routingKeyRemediation : String := "remediation.requested"
def routingKeySecurity : String := "security.signal"
def routingKeyTraffic : String := "traffic.sample"

/-- What is handed to `publish`: a dict in which the only objects foreign to JSON are datetimes. -/
abbrev Dict (K : Type) := Value K Time

/-- `json.dumps(payload, default=str)` -/
def dumps (T : FloatText K) (payload : Dict K) : String := JsonText.dumps T Calendar.text payload

/-! ## Ids -/

/-- `n` in `w` hexadecimal digits. -/
def hexField : ℕ → ℕ → List Char
  | 0, _ => []
  | w + 1, n => hexField w (n / 16) ++ [hexDigit (n % 16)]

/-- `str(uuid)` -/
def uuidText (id : Uuid) : String :=
  let ds := hexField 32 id
  String.ofList (ds.take 8 ++ '-' :: ((ds.drop 8).take 4 ++ '-' :: ((ds.drop 12).take 4
    ++ '-' :: ((ds.drop 16).take 4 ++ '-' :: ds.drop 20))))

/-- The number of a text of hexadecimal digits. -/
def hexOf : List Char → ℕ → Option ℕ
  | [], n => some n
  | c :: cs, n => do hexOf cs (16 * n + (← hexValue c))

/-- `uuid.UUID(text)`, of a text without braces or a prefix. -/
def parseUuid (text : String) : Option Uuid :=
  let ds := text.toList.filter (· ≠ '-')
  if ds.length = 32 then hexOf ds 0 else none

/-! ## Writing -/

def optional {α : Type} (write : α → Dict K) : Option α → Dict K
  | some a => write a
  | none => .null

/-- The entry of a key that may be left out. -/
def entry {α : Type} (key : String) (write : α → Dict K) : Option α → List (String × Dict K)
  | some a => [(key, write a)]
  | none => []

def resourceDump (r : ResourceRef) : Dict K :=
  .obj [("cluster", .str r.cluster), ("namespace", .str r.namespace_), ("node", .str r.node),
    ("pod", optional .str r.pod), ("container", optional .str r.container),
    ("service", optional .str r.service)]

/-- `MetricEvent(...).model_dump()` -/
def metricDump (m : Collector.MetricEvent K) : Dict K :=
  let bytes := optional fun n : ℕ => .int n
  .obj [("timestamp", .other m.timestamp), ("resource", resourceDump m.resource),
    ("cpu_usage_cores", .float m.usage.cpuUsageCores),
    ("memory_working_set_bytes", .int (m.usage.memoryWorkingSetBytes : ℕ)),
    ("memory_rss_bytes", bytes m.usage.memoryRssBytes),
    ("network_rx_bytes_total", bytes m.usage.networkRxBytesTotal),
    ("network_tx_bytes_total", bytes m.usage.networkTxBytesTotal),
    ("disk_read_bytes_total", .null), ("disk_write_bytes_total", .null)]

/-- `LifecycleEvent` -/
structure Lifecycle where
  timestamp : Time
  resource : ResourceRef
  eventType : Collector.LifecycleEventType
  reason : String
  message : String

def lifecycleDump (e : Lifecycle) : Dict K :=
  .obj [("timestamp", .other e.timestamp), ("resource", resourceDump e.resource),
    ("event_type", .str e.eventType.value), ("reason", .str e.reason), ("message", .str e.message)]

/-- `CostEvent` -/
structure Cost (K : Type) where
  timestamp : Time
  service : String
  resource : ResourceRef
  resourceType : String
  unitRate : K
  costPerHour : K
  costPerUnitOfWork : Option K
  cpuCores : Option K

def costDump (e : Cost K) : Dict K :=
  .obj [("timestamp", .other e.timestamp), ("service", .str e.service),
    ("resource", resourceDump e.resource), ("resource_type", .str e.resourceType),
    ("unit_rate", .float e.unitRate), ("cost_per_hour", .float e.costPerHour),
    ("cost_per_unit_of_work", optional .float e.costPerUnitOfWork),
    ("cpu_cores", optional .float e.cpuCores)]

/-- What `handle` of the cost engine publishes for a metric event. -/
def publishedCost [Scalar K] (pricing : Cost.PricingModel K) (now : Time)
    (message : Cost.MetricEvent K) : Option (Cost K) :=
  (Cost.serviceId message.resource).map fun service =>
    { timestamp := now
      service := service
      resource := message.resource
      resourceType := "compute"
      unitRate := pricing.cpuCoreHour
      costPerHour := pricing.costPerHour message.cpuUsageCores message.memoryWorkingSetBytes
      costPerUnitOfWork := none
      cpuCores := some message.cpuUsageCores }

def trafficDump (s : TrafficSample K) : Dict K :=
  .obj [("timestamp", .other s.timestamp), ("service", .str s.service),
    ("requests_per_second", .float s.requestsPerSecond)]

/-- `SecuritySignal` -/
structure Security (K : Type) where
  timestamp : Time
  service : String
  rule : String
  severity : String
  detail : List (String × Dict K)

def securityDump (s : Security K) : Dict K :=
  .obj [("timestamp", .other s.timestamp), ("service", .str s.service), ("rule", .str s.rule),
    ("severity", .str s.severity), ("detail", .obj s.detail)]

/-- The evidence of `_flag_anomaly`. -/
def evidenceDump (f : Behaviour.Flag K) : Dict K :=
  .obj [("metric", .str Behaviour.metricCost), ("value", .float f.value), ("bucket", .str f.bucket),
    ("resource", resourceDump f.resource),
    ("scores", .obj [("cost_z", .float f.scores.costZ), ("cpu_z", .float f.scores.cpuZ),
      ("traffic_z", .float f.scores.trafficZ)]),
    ("confidence", .float f.scoreConfidence), ("baseline_mature", .bool f.mature),
    ("cost_delta_usd_hr", .float f.costDelta)]

/-- `Anomaly(...).model_dump()`, and the confidence beside it. -/
def anomalyDump [Scalar K] (f : Behaviour.Flag K) (id : Uuid) (now : Time) : Dict K :=
  .obj [("id", .str (uuidText id)), ("service", .str f.service), ("score", .float f.scores.peak),
    ("classification", .str f.classification.value), ("evidence", evidenceDump f),
    ("status", .str "open"), ("created_at", .other now), ("confidence", .float f.scoreConfidence)]

/-- The dicts of the decision engine and of the API: a key that is not given is not there. -/
def remediationDump (m : RemediationMessage) : Dict K :=
  let id := fun u : Uuid => .str (uuidText u)
  .obj (entry "action_id" id m.actionId ++ entry "anomaly_id" id m.anomalyId
    ++ entry "service" .str m.service ++ entry "action" .str m.action ++ entry "mode" .str m.mode
    ++ entry "target_action_id" id m.targetActionId)

/-! ## Reading -/

/-- `d.get(key)`, of a dict. -/
def find (d : Json K) (key : String) : Except Err (Option (Json K)) :=
  match d with
  | .obj kvs => .ok (kvs.lookup key)
  | _ => .error .typeError

def asText : Json K → Except Err String
  | .str s => .ok s
  | _ => .error .typeError

def asNumber [IntCast K] : Json K → Except Err K
  | .int n => .ok n
  | .float x => .ok x
  | _ => .error .typeError

def asBytes : Json K → Except Err ℕ
  | .int n => if 0 ≤ n then .ok n.toNat else .error .typeError
  | _ => .error .typeError

def asBool : Json K → Except Err Bool
  | .bool b => .ok b
  | _ => .error .typeError

/-- `datetime.fromisoformat(v)` -/
def asTime (v : Json K) : Except Err Time := do
  match Calendar.parse (← asText v) with
  | some t => return t
  | none => throw .valueError

def asUuid (v : Json K) : Except Err Uuid := do
  match parseUuid (← asText v) with
  | some id => return id
  | none => throw .valueError

/-- A value that may be null. -/
def nullable {α : Type} (read : Json K → Except Err α) : Json K → Except Err (Option α)
  | .null => .ok none
  | v => some <$> read v

/-- A key that may be left out. -/
def findWith {α : Type} (d : Json K) (key : String) (read : Json K → Except Err α) :
    Except Err (Option α) := do
  match ← find d key with
  | some v => some <$> read v
  | none => return none

def itemWith {α : Type} (d : Json K) (key : String) (read : Json K → Except Err α) :
    Except Err α := do
  read (← d.subscript key)

def asResource (d : Json K) : Except Err ResourceRef := do
  return {
    cluster := ← itemWith d "cluster" asText
    namespace_ := ← itemWith d "namespace" asText
    node := ← itemWith d "node" asText
    pod := ← itemWith d "pod" (nullable asText)
    container := ← itemWith d "container" (nullable asText)
    service := ← itemWith d "service" (nullable asText) }

section

variable [IntCast K]

/-- What the cost engine reads. -/
def readMetric (d : Json K) : Except Err (Cost.MetricEvent K) := do
  return {
    resource := ← itemWith d "resource" asResource
    cpuUsageCores := ← itemWith d "cpu_usage_cores" asNumber
    memoryWorkingSetBytes := ← itemWith d "memory_working_set_bytes" asBytes }

/-- What `_handle_cost` reads. -/
def readCost (d : Json K) : Except Err (CostEvent K) := do
  return {
    service := ← itemWith d "service" asText
    costPerHour := ← itemWith d "cost_per_hour" asNumber
    timestamp := ← itemWith d "timestamp" asTime
    cpuCores := ← findWith d "cpu_cores" (nullable asNumber)
    resource := ← itemWith d "resource" asResource }

/-- What `_handle_traffic` reads. -/
def readTraffic (d : Json K) : Except Err (TrafficSample K) := do
  return {
    service := ← itemWith d "service" asText
    timestamp := ← itemWith d "timestamp" asTime
    requestsPerSecond := ← itemWith d "requests_per_second" asNumber }

/-- What `_handle_lifecycle` reads. -/
def readLifecycle (d : Json K) : Except Err LifecycleEvent := do
  let eventType ← itemWith d "event_type" asText
  let resource ← d.subscript "resource"
  let pod ← findWith resource "pod" (nullable asText)
  let namespace_ ← findWith resource "namespace" (nullable asText)
  return { eventType := eventType, namespace_ := namespace_.join, pod := pod.join }

/-- What `_handle_security_signal` reads. -/
def readSecurity (d : Json K) : Except Err SecuritySignal := do
  return {
    service := ← itemWith d "service" asText
    rule := ← itemWith d "rule" asText }

/-- The verdict of the detector, one of the values of the enumeration. -/
def asClassification (v : Json K) : Except Err AnomalyClassification := do
  let text ← asText v
  match [AnomalyClassification.legitimateTrafficGrowth, .likelyBugFromDeployment,
      .misconfigurationOrWaste, .suspectedAbuse, .unclassified].find? (·.value = text) with
  | some c => return c
  | none => throw .valueError

def asScores (d : Json K) : Except Err (Scores K) := do
  return {
    costZ := ← itemWith d "cost_z" asNumber
    cpuZ := ← itemWith d "cpu_z" asNumber
    trafficZ := ← itemWith d "traffic_z" asNumber }

/-- The evidence, which is written back with the reason of the classification beside it. -/
def asEvidence (d : Json K) : Except Err (Evidence K) := do
  return {
    metric := ← itemWith d "metric" asText
    value := ← findWith d "value" asNumber
    bucket := ← itemWith d "bucket" asText
    resource := ← itemWith d "resource" asResource
    scores := ← itemWith d "scores" asScores
    confidence := ← findWith d "confidence" asNumber
    baselineMature := ← itemWith d "baseline_mature" asBool
    costDeltaUsdHr := ← itemWith d "cost_delta_usd_hr" asNumber }

/-- What `_handle_anomaly` reads, and the rest of the message. -/
def readAnomaly (d : Json K) : Except Err (AnomalyMessage K) := do
  return {
    id := ← itemWith d "id" asUuid
    service := ← itemWith d "service" asText
    score := ← itemWith d "score" asNumber
    classification := ← findWith d "classification" asClassification
    evidence := ← itemWith d "evidence" asEvidence
    status := ← itemWith d "status" asText
    createdAt := ← itemWith d "created_at" asTime
    confidence := ← findWith d "confidence" asNumber }

/-- What `handle` of the executor reads. -/
def readRemediation (d : Json K) : Except Err RemediationMessage := do
  return {
    actionId := ← findWith d "action_id" asUuid
    anomalyId := ← findWith d "anomaly_id" asUuid
    service := ← findWith d "service" asText
    action := ← findWith d "action" asText
    mode := ← findWith d "mode" asText
    targetActionId := ← findWith d "target_action_id" asUuid }

end

/-! ## The messages -/

/-- A message as its publisher has it. -/
inductive Sent (K : Type) where
  | metric (m : Collector.MetricEvent K)
  | lifecycle (e : Lifecycle)
  | cost (e : Cost K)
  | traffic (s : TrafficSample K)
  | security (s : Security K)
  | anomaly (f : Behaviour.Flag K) (id : Uuid) (now : Time)
  | remediation (m : RemediationMessage)

/-- A message as its handler has it. -/
inductive Received (K : Type) where
  | metric (m : Cost.MetricEvent K)
  | lifecycle (e : LifecycleEvent)
  | cost (e : CostEvent K)
  | traffic (s : TrafficSample K)
  | security (s : SecuritySignal)
  | anomaly (m : AnomalyMessage K)
  | remediation (m : RemediationMessage)

def Sent.routingKey : Sent K → String
  | .metric _ => routingKeyMetric
  | .lifecycle _ => routingKeyLifecycle
  | .cost _ => routingKeyCost
  | .traffic _ => routingKeyTraffic
  | .security _ => routingKeySecurity
  | .anomaly _ _ _ => routingKeyAnomaly
  | .remediation _ => routingKeyRemediation

def Sent.payload [Scalar K] : Sent K → Dict K
  | .metric m => metricDump m
  | .lifecycle e => lifecycleDump e
  | .cost e => costDump e
  | .traffic s => trafficDump s
  | .security s => securityDump s
  | .anomaly f id now => anomalyDump f id now
  | .remediation m => remediationDump m

/-- What the handlers of the other side work on. -/
def Sent.received [Scalar K] : Sent K → Received K
  | .metric m =>
      .metric ⟨m.resource, m.usage.cpuUsageCores, m.usage.memoryWorkingSetBytes⟩
  | .lifecycle e => .lifecycle ⟨e.eventType.value, some e.resource.namespace_, e.resource.pod⟩
  | .cost e => .cost ⟨e.timestamp, e.service, e.resource, e.costPerHour, some e.cpuCores⟩
  | .traffic s => .traffic s
  | .security s => .security ⟨s.service, s.rule⟩
  | .anomaly f id now => .anomaly (f.message id now)
  | .remediation m => .remediation m

/-- The handler bound to a routing key. -/
def read [IntCast K] (routingKey : String) (d : Json K) : Except Err (Received K) :=
  if routingKey = routingKeyMetric then .metric <$> readMetric d
  else if routingKey = routingKeyLifecycle then .lifecycle <$> readLifecycle d
  else if routingKey = routingKeyCost then .cost <$> readCost d
  else if routingKey = routingKeyTraffic then .traffic <$> readTraffic d
  else if routingKey = routingKeySecurity then .security <$> readSecurity d
  else if routingKey = routingKeyAnomaly then .anomaly <$> readAnomaly d
  else if routingKey = routingKeyRemediation then .remediation <$> readRemediation d
  else .error .other

/-- `json.loads`, and the first thing a handler does. -/
def receive [IntCast K] (T : FloatText K) (routingKey text : String) : Except Err (Received K) :=
  match loads T text with
  | some d => read routingKey d
  | none => .error .valueError

end HyperTrace.Wire
