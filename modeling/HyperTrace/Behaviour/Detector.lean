import HyperTrace.Behaviour.Confidence
import HyperTrace.Behaviour.Stats

/-!
# The detector

`main.py` of the behaviour analysis engine: the two message handlers with the
baselines they load, score against and save, the detection condition, and the two
counters that make up dwell and suppression. Both counters live in the persisted
profile of the cost metric, next to the buckets.
-/

namespace HyperTrace.Behaviour

variable {K : Type} [Scalar K]

def metricCost : String := "cost_per_hour"
def metricCpu : String := "cpu_cores"
def metricTraffic : String := "requests_per_second"

def resourceZThreshold : K := 3.0
def costZThreshold : K := 3.0
def trafficZCeiling : K := 1
def trafficZComovement : K := 3.0
def dwellSamples : Nat := 3

def minSamplesForDetection : Nat := 5
def overallKey : String := "_overall"
def flagStateKey : String := "_flag_state"
def maxConsecutiveSuppressed : Nat := 30

def bucketKey (timestamp : Time) : String := s!"{weekday timestamp}-{hour timestamp}"

/-- Whether the reading may update the baseline, and the new suppression counter. -/
def shouldLearn (qualifies : Bool) (consecutiveFlags : Nat) : Bool × Nat :=
  if !qualifies then (true, 0)
  else if consecutiveFlags ≥ maxConsecutiveSuppressed then (true, 0)
  else (false, consecutiveFlags + 1)

/-- `(qualifies, traffic_explains)`; without a traffic signal neither holds. -/
def evaluateCondition (costZ cpuZ : K) (trafficZ : Option K) (mature : Bool) : Bool × Bool :=
  match mature, trafficZ with
  | true, some tz =>
      let resourceMoved := decide (max costZ cpuZ > resourceZThreshold ∧ costZ > costZThreshold)
      let trafficExplains := resourceMoved && decide (tz ≥ trafficZComovement)
      let decoupled := decide (tz < trafficZCeiling)
      (resourceMoved && decoupled, trafficExplains)
  | _, _ => (false, false)

def loadProfile (service metric : String) : Py K (Profile K) :=
  call (.loadProfile service metric)

def saveProfile (service metric : String) (profile : Profile K) : Py K Unit := do
  let overall := BucketStats.fromDict (profile overallKey)
  let now ← call .now
  call (.saveProfile service metric ⟨overall.mean, overall.stddev, profile, now⟩)

/-- The z-score of a value against a bucket, or 0 while the bucket is too young to score. -/
def scoreIn (stats : BucketStats K) (value : K) : K :=
  if stats.n ≥ minSamplesForDetection then stats.zScore value else 0

/-- A null value: arithmetic on `None` raises whether or not the bucket is scored. -/
def asNumber : Option K → Py K K
  | some v => pure v
  | none => throw .typeError

def scoreAndLearn (service metric : String) (value : Option K) (bucket : String) :
    Py K (K × Nat) := do
  let profile ← loadProfile service metric
  let stats := BucketStats.fromDict (profile bucket)
  let overall := BucketStats.fromDict (profile overallKey)
  let value ← asNumber value
  let z := scoreIn stats value
  let stats := stats.update value
  let overall := overall.update value
  let profile := put profile bucket (.stats stats)
  let profile := put profile overallKey (.stats overall)
  saveProfile service metric profile
  return (z, stats.n)

def handleTraffic (message : TrafficSample K) : Py K Unit := do
  let (z, _) ← scoreAndLearn message.service metricTraffic (some message.requestsPerSecond)
    (bucketKey message.timestamp)
  call (.setTrafficZ message.service z)

/-- What `_flag_anomaly` is given. -/
structure Flag (K : Type) where
  service : String
  scores : Scores K
  scoreConfidence : K
  classification : AnomalyClassification
  mature : Bool
  costDelta : K
  value : K
  bucket : String
  resource : ResourceRef

def Flag.evidence (f : Flag K) : Evidence K where
  metric := metricCost
  value := some f.value
  bucket := f.bucket
  resource := f.resource
  scores := f.scores
  confidence := some f.scoreConfidence
  baselineMature := f.mature
  costDeltaUsdHr := f.costDelta

/-- The row inserted into `anomalies`. -/
def Flag.row (f : Flag K) (id : Uuid) (now : Time) : AnomalyRow K where
  id := id
  service := f.service
  score := f.scores.peak
  classification := f.classification
  evidence := f.evidence
  status := "open"
  createdAt := now
  confidence := f.scoreConfidence
  baselineMature := f.mature
  costDeltaUsdHr := f.costDelta

/-- The published payload: the dumped `Anomaly`, and its confidence. -/
def Flag.message (f : Flag K) (id : Uuid) (now : Time) : AnomalyMessage K where
  id := id
  service := f.service
  score := f.scores.peak
  classification := some f.classification
  evidence := f.evidence
  status := "open"
  createdAt := now
  confidence := some f.scoreConfidence

def flagAnomaly (f : Flag K) : Py K Unit := do
  let now ← call .now
  let id ← call .uuid4
  call (.insertAnomaly (f.row id now))
  publish (.anomaly (f.message id now))

def handleCost (message : CostEvent K) : Py K Unit := do
  let service := message.service
  let value := message.costPerHour
  let bucket := bucketKey message.timestamp
  let (cpuZ, _) ← scoreAndLearn service metricCpu (message.cpuCores.getD (some 0)) bucket
  let profile ← loadProfile service metricCost
  let stats := BucketStats.fromDict (profile bucket)
  let overall := BucketStats.fromDict (profile overallKey)
  let flagState := FlagState.fromDict (profile flagStateKey)
  let mature := decide (stats.n ≥ minSamplesForDetection)
  let costZ := if mature then stats.zScore value else 0
  let costDelta := if mature then value - stats.mean else 0
  let trafficZ ← call (.getTrafficZ service)
  let scores : Scores K := ⟨costZ, cpuZ, trafficZ.getD 0⟩
  let (qualifies, trafficExplains) := evaluateCondition costZ cpuZ trafficZ mature
  let consecutive := if qualifies then flagState.consecutiveQualifying + 1 else 0
  let shouldFlag := qualifies && decide (consecutive ≥ dwellSamples)
  let (learn, suppressed) := shouldLearn qualifies flagState.consecutive
  let stats := if learn then stats.update value else stats
  let profile :=
    if learn then put (put profile bucket (.stats stats)) overallKey (.stats (overall.update value))
    else profile
  let profile := put profile flagStateKey (.flags ⟨suppressed, consecutive⟩)
  saveProfile service metricCost profile
  if shouldFlag then
    flagAnomaly
      { service, scores
        scoreConfidence := confidence scores corroborationNone stats.n
        classification := if trafficExplains then .legitimateTrafficGrowth else .unclassified
        mature := decide (stats.n ≥ maturitySamples)
        costDelta, value, bucket
        resource := message.resource }

end HyperTrace.Behaviour
