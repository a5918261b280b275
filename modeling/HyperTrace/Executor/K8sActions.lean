import HyperTrace.Common.Messaging

/-!
# The executor's Kubernetes actions

`k8s_actions.py`: throttle, freeze and their reversal. An action that changed
something returns a rollback reference, a JSON text that says what was there
before and where; `rollback` reads nothing else.
-/

namespace HyperTrace.Executor

variable {K : Type}

def throttleCpuLimit : String := "100m"

/-- `namespace, _, workload = service.partition("/")` -/
def splitService (service : String) : String × String := partitionSlash service

/-- What an action returns. -/
structure Outcome (K : Type) where
  status : ActionResult
  reason : String
  rollbackRef : Option (Json.Text K)

def noOp (reason : String) : Outcome K := ⟨.noOp, reason, none⟩

/-- `None` as null, a text as a string. -/
def jsonOfText : Option String → Json K
  | some s => .str s
  | none => .null

/-- The rollback reference of a throttle. -/
def throttleRef (ns deployment container : String) (previousCpuLimit : Option String) : Json K :=
  .obj
    [("kind", .str "deployment_cpu_limit"),
      ("namespace", .str ns),
      ("deployment", .str deployment),
      ("container", .str container),
      ("previous_cpu_limit", jsonOfText previousCpuLimit)]

/-- The rollback reference of a freeze. -/
def freezeRef (ns hpa : String) (previousMaxReplicas : Nat) : Json K :=
  .obj
    [("kind", .str "hpa_max_replicas"),
      ("namespace", .str ns),
      ("hpa", .str hpa),
      ("previous_max_replicas", .int previousMaxReplicas)]

/-- The reading of a Deployment; a missing one is an answer, any other error is raised. -/
def readOrMissing (deploymentName ns : String) : Py K (Option Deployment) := do
  try
    let deployment ← call (.readDeployment deploymentName ns)
    pure (some deployment)
  catch e =>
    if e = .api 404 then pure none else throw e

def throttle (service : String) : Py K (Outcome K) := do
  let (ns, deploymentName) := splitService service
  match ← readOrMissing deploymentName ns with
  | none => return noOp s!"no Deployment named {deploymentName}"
  | some deployment =>
      let container := deployment.first
      let previousLimit := container.cpuLimit
      if previousLimit = some throttleCpuLimit then
        return noOp "already throttled"
      call (.patchDeployment deploymentName ns container.name (.str throttleCpuLimit))
      let reason := s!"capped {deploymentName}/{container.name} cpu limit to {throttleCpuLimit}"
      let rollbackRef := throttleRef ns deploymentName container.name previousLimit
      return ⟨.executed, reason, some (Json.dumps rollbackRef)⟩

def freezeScaling (service : String) : Py K (Outcome K) := do
  let (ns, deploymentName) := splitService service
  let hpas : List Hpa ← call (.listHpas ns)
  match hpas.find? (fun h => h.target = deploymentName) with
  | none => return noOp s!"no HPA targets {deploymentName}"
  | some hpa =>
      match hpa.currentReplicas with
      | none => return noOp "HPA has not reported a replica count yet"
      | some currentReplicas =>
          if currentReplicas = 0 then
            return noOp "workload is scaled to zero"
          if hpa.maxReplicas = currentReplicas then
            return noOp "already frozen at current replica count"
          call (.patchHpa hpa.name ns (.int currentReplicas))
          let reason := s!"froze {hpa.name} maxReplicas at {currentReplicas}"
          return ⟨.executed, reason, some (Json.dumps (freezeRef ns hpa.name hpa.maxReplicas))⟩

/-- A name in a request path; the client takes nothing but text there. -/
def refText (ref : Json K) (key : String) : Except Err String := do
  match ← ref.subscript key with
  | .str s => return s
  | _ => throw .typeError

/-- A value inside an f-string. No reference holds anything but texts, numbers and null. -/
def displayed : Json K → String
  | .str s => s
  | .int n => toString n
  | .null => "None"
  | _ => ""

def rollback (rollbackRefJson : Json.Text K) : Py K (Outcome K) := do
  let ref := Json.loads rollbackRefJson
  let kind ← lift (ref.subscript "kind")
  if kind.isStr "deployment_cpu_limit" then
    let container ← lift (refText ref "container")
    let previous ← lift (ref.subscript "previous_cpu_limit")
    let deployment ← lift (refText ref "deployment")
    let ns ← lift (refText ref "namespace")
    call (.patchDeployment deployment ns container previous)
    let reason := s!"restored {deployment}/{container} cpu limit to {displayed previous}"
    return ⟨.rolledBack, reason, none⟩
  if kind.isStr "hpa_max_replicas" then
    let previous ← lift (ref.subscript "previous_max_replicas")
    let hpa ← lift (refText ref "hpa")
    let ns ← lift (refText ref "namespace")
    call (.patchHpa hpa ns previous)
    return ⟨.rolledBack, s!"restored {hpa} maxReplicas to {displayed previous}", none⟩
  return ⟨.failed, s!"unknown rollback kind: {displayed kind}", none⟩

end HyperTrace.Executor
