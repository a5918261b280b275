import HyperTrace.Common.Tables

/-!
# The event watcher

`k8s_events.py` of the collector: which Kubernetes Events become lifecycle messages,
and what of an event a message carries.
-/

namespace HyperTrace

/-- What Kubernetes lets an object or a namespace be called. -/
structure ObjectName where
  text : String
  nonempty : text ≠ ""
  noSlash : '/' ∉ text.toList
  deriving DecidableEq

namespace Collector

/-- `LifecycleEventType` -/
inductive LifecycleEventType where
  | podCreated
  | podDeleted
  | podRestarted
  | podOomKilled
  | deploymentScaled
  | hpaScaled
  deriving DecidableEq, Repr

def LifecycleEventType.value : LifecycleEventType → String
  | podCreated => "pod_created"
  | podDeleted => "pod_deleted"
  | podRestarted => "pod_restarted"
  | podOomKilled => "pod_oom_killed"
  | deploymentScaled => "deployment_scaled"
  | hpaScaled => "hpa_scaled"

def reasonToType (reason : String) : Option LifecycleEventType :=
  if reason = "Started" then some .podCreated
  else if reason = "Killing" then some .podDeleted
  else if reason = "BackOff" then some .podRestarted
  else if reason = "OOMKilling" then some .podOomKilled
  else if reason = "ScalingReplicaSet" then some .deploymentScaled
  else if reason = "SuccessfulRescale" then some .hpaScaled
  else none

/-- `involved_object` of an event; a missing or an empty namespace is none. -/
structure InvolvedObject where
  kind : String
  namespace_ : Option ObjectName
  name : Option ObjectName

/-- `CoreV1Event`, as far as the watcher reads it. -/
structure CoreEvent where
  reason : Option String
  involvedObject : InvolvedObject
  lastTimestamp : Option Time
  eventTime : Option Time
  firstTimestamp : Option Time

/-- `involved.namespace or "default"` -/
def InvolvedObject.namespaceText (involved : InvolvedObject) : String :=
  (involved.namespace_.map ObjectName.text).getD "default"

/-- The body of the watch loop: the message for an event, or none if it is skipped. -/
def lifecycleEvent (raw : CoreEvent) : Option LifecycleEvent :=
  match reasonToType (raw.reason.getD "") with
  | none => none
  | some eventType =>
      let involved := raw.involvedObject
      match raw.lastTimestamp <|> raw.eventTime <|> raw.firstTimestamp with
      | none => none
      | some _ => some
          { eventType := eventType.value
            namespace_ := some involved.namespaceText
            pod := if involved.kind = "Pod" then involved.name.map ObjectName.text else none }

end Collector

end HyperTrace
