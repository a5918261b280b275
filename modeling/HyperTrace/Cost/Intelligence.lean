import HyperTrace.Common.Tables

/-!
# Cost intelligence

`main.py` and `pricing.py` of the cost intelligence engine: the cost event made of a
metric event, and the service it is for.
-/

namespace HyperTrace.Cost

/-- `MetricEvent`, as far as the engine reads it. -/
structure MetricEvent (K : Type) where
  resource : ResourceRef
  cpuUsageCores : K
  memoryWorkingSetBytes : Nat

structure PricingModel (K : Type) where
  cpuCoreHour : K
  memoryGbHour : K

def bytesPerGb : Nat := 1024 ^ 3

/-- An optional text that is there and is not empty. -/
def nonempty (text : Option String) : Option String := text.filter (· ≠ "")

/-- `namespace/workload`, for what belongs to a pod. -/
def serviceId (resource : ResourceRef) : Option String :=
  match nonempty resource.pod with
  | none => none
  | some pod =>
      let workload := (nonempty resource.service).getD pod
      some (resource.namespace_ ++ "/" ++ workload)

section

variable {K : Type} [Scalar K]

def PricingModel.costPerHour (p : PricingModel K) (cpuCores : K) (memoryBytes : Nat) : K :=
  let memoryGb := (memoryBytes : K) / (bytesPerGb : K)
  cpuCores * p.cpuCoreHour + memoryGb * p.memoryGbHour

/-- The cost event published for a metric event. -/
def handle (pricing : PricingModel K) (now : Time) (message : MetricEvent K) :
    Option (CostEvent K) :=
  (serviceId message.resource).map fun service =>
    { timestamp := now
      service := service
      resource := message.resource
      costPerHour := pricing.costPerHour message.cpuUsageCores message.memoryWorkingSetBytes
      cpuCores := some (some message.cpuUsageCores) }

/-- The row inserted into `cost_events` for it. -/
def storedRow (pricing : PricingModel K) (now : Time) (message : MetricEvent K) :
    Option (CostEventRow K) :=
  (serviceId message.resource).map fun service =>
    { time := now
      service := service
      resourceType := "compute"
      unitRate := pricing.cpuCoreHour
      costPerHour := pricing.costPerHour message.cpuUsageCores message.memoryWorkingSetBytes }

end

end HyperTrace.Cost
