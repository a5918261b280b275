import HyperTrace.Effect.Prog
import HyperTrace.Effect.Loop
import HyperTrace.Effect.Record
import HyperTrace.Effect.System
import HyperTrace.Effect.Lockstep
import HyperTrace.Effect.Token
import HyperTrace.Effect.Window
import HyperTrace.Effect.Latest
import HyperTrace.Effect.Queue
import HyperTrace.Effect.Search
import HyperTrace.Effect.Sum
import HyperTrace.Effect.Ledger
import HyperTrace.Effect.Only
import HyperTrace.Effect.Rest
import HyperTrace.Effect.Channel
import HyperTrace.Effect.Polling
import HyperTrace.Effect.Machine
import HyperTrace.Common.Values
import HyperTrace.Text.Json
import HyperTrace.Text.Dict
import HyperTrace.Text.JsonRoundTrip
import HyperTrace.Text.Calendar
import HyperTrace.Numeric.Moments
import HyperTrace.Numeric.Representatives
import HyperTrace.Numeric.Numeral
import HyperTrace.Common.Exact
import HyperTrace.Common.Tables
import HyperTrace.Common.Cluster
import HyperTrace.Common.World
import HyperTrace.Common.Consume
import HyperTrace.Common.Publish
import HyperTrace.Common.Messaging
import HyperTrace.Behaviour.Stats
import HyperTrace.Behaviour.Confidence
import HyperTrace.Behaviour.Detector
import HyperTrace.Collector.K8sEvents
import HyperTrace.Collector.WorkloadResolver
import HyperTrace.Collector.KubeletClient
import HyperTrace.Collector.Agent
import HyperTrace.Cost.Intelligence
import HyperTrace.Decision.Policy
import HyperTrace.Decision.Engine
import HyperTrace.Api.Actions
import HyperTrace.Api.Users
import HyperTrace.Api.Dashboard
import HyperTrace.Api.AlertStream
import HyperTrace.Executor.K8sActions
import HyperTrace.Executor.Executor
import HyperTrace.System
import HyperTrace.Wire
import HyperTrace.Adapter.Traffic
import HyperTrace.Api.Server
import HyperTrace.Proof.Scoring
import HyperTrace.Proof.World
import HyperTrace.Proof.Alone
import HyperTrace.Proof.Transcript
import HyperTrace.Proof.DetectorCalls
import HyperTrace.Proof.DecisionCalls
import HyperTrace.Proof.ApiCalls
import HyperTrace.Proof.ExecutorCalls
import HyperTrace.Proof.Calls
import HyperTrace.Proof.Provenance
import HyperTrace.Proof.Authority
import HyperTrace.Proof.Floor
import HyperTrace.Proof.Approval
import HyperTrace.Proof.Reversal
import HyperTrace.Proof.Writes
import HyperTrace.Proof.Outcome
import HyperTrace.Proof.InFlight
import HyperTrace.Proof.Deliveries
import HyperTrace.Proof.BlastRadius
import HyperTrace.Proof.Dwell
import HyperTrace.Proof.Confidence
import HyperTrace.Proof.Corroboration
import HyperTrace.Proof.Cluster
import HyperTrace.Proof.Containment
import HyperTrace.Proof.Learning
import HyperTrace.Proof.Summaries
import HyperTrace.Proof.Suppression
import HyperTrace.Proof.Shift
import HyperTrace.Proof.TrafficKnown
import HyperTrace.Proof.Surge
import HyperTrace.Proof.NullReading
import HyperTrace.Proof.Correlation
import HyperTrace.Proof.Restore
import HyperTrace.Proof.Handling
import HyperTrace.Proof.Redelivery
import HyperTrace.Proof.Scaling
import HyperTrace.Proof.Budget
import HyperTrace.Proof.Consumer
import HyperTrace.Proof.Publisher
import HyperTrace.Proof.Wire
import HyperTrace.Proof.Delivery
import HyperTrace.Proof.Policies
import HyperTrace.Proof.PolicyOrder
import HyperTrace.Proof.Variation
import HyperTrace.Proof.Interference
import HyperTrace.Proof.Lineage
import HyperTrace.Proof.Rest
import HyperTrace.Proof.Conservation
import HyperTrace.Proof.Admission
import HyperTrace.Proof.Evidence
import HyperTrace.Proof.PolicyStore
import HyperTrace.Proof.Defences
import HyperTrace.Proof.Sessions
import HyperTrace.Proof.Pricing
import HyperTrace.Proof.Growth
import HyperTrace.Proof.Windows
import HyperTrace.Proof.Spend
import HyperTrace.Proof.Incidents
import HyperTrace.Proof.Feed
import HyperTrace.Proof.Cycles
import HyperTrace.Proof.Threads
import HyperTrace.Proof.Identity
import HyperTrace.Proof.Kubelet
import HyperTrace.Proof.Collecting
import HyperTrace.Proof.OneCycle
import HyperTrace.Proof.Sampling
import HyperTrace.Proof.Alerts
import HyperTrace.Proof.Thresholds
