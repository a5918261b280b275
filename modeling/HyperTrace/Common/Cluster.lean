import HyperTrace.Common.Tables

/-!
# The cluster

The part of a Kubernetes cluster the executor can see and change: the containers
of a Deployment with their resource limits, and the HorizontalPodAutoscalers of a
namespace. What the API server refuses to store cannot be built here: a
Deployment has at least one container and no two of one name, an autoscaler has
`1 ≤ maxReplicas` and `minReplicas ≤ maxReplicas`.
-/

namespace HyperTrace

/-- `V1ResourceRequirements`, its limits by resource name. -/
structure Resources where
  limits : Option (String → Option String)

structure Container where
  name : String
  resources : Option Resources

/-- `(container.resources.limits or {}).get("cpu") if container.resources else None` -/
def Container.cpuLimit (c : Container) : Option String :=
  match c.resources with
  | some r => (r.limits.getD fun _ => none) "cpu"
  | none => none

/--
Strategic merge of `{"resources": {"limits": {"cpu": q}}}`: the key is set, or
deleted by a null, and nothing else is touched.
-/
def Container.mergeCpu (c : Container) (q : Option String) : Container :=
  let limits := (c.resources.bind Resources.limits).getD fun _ => none
  { c with resources := some ⟨some fun k => if k = "cpu" then q else limits k⟩ }

@[simp] theorem Container.mergeCpu_name (c : Container) (q : Option String) :
    (c.mergeCpu q).name = c.name := rfl

/-- A Deployment, by its pod template's containers. -/
structure Deployment where
  first : Container
  rest : List Container
  names_nodup : ((first :: rest).map Container.name).Nodup

/-- Merge a CPU limit into the container of the given name; the others are kept. -/
def mergeByName (name : String) (q : Option String) (c : Container) : Container :=
  if c.name = name then c.mergeCpu q else c

@[simp] theorem mergeByName_name (name : String) (q : Option String) (c : Container) :
    (mergeByName name q c).name = c.name := by
  unfold mergeByName
  split <;> rfl

/--
A strategic merge patch of one container's CPU limit, containers being merged by
name. A name that is not there would add a container without an image, which the
API server rejects.
-/
def Deployment.patchCpuLimit (d : Deployment) (name : String) (q : Option String) :
    Option Deployment :=
  if (d.first :: d.rest).any (fun c => c.name = name) then
    some
      { first := mergeByName name q d.first
        rest := d.rest.map (mergeByName name q)
        names_nodup := by
          have := d.names_nodup
          simpa [List.map_map, Function.comp_def] using this }
  else none

/-- `V2HorizontalPodAutoscaler` -/
structure Hpa where
  name : String
  /-- `spec.scale_target_ref.name` -/
  target : String
  minReplicas : Nat
  maxReplicas : Nat
  currentReplicas : Option Nat
  valid : 1 ≤ maxReplicas ∧ minReplicas ≤ maxReplicas

/-- Set `spec.maxReplicas`, when that is a valid autoscaler. -/
def Hpa.withMaxReplicas (h : Hpa) (n : Nat) : Option Hpa :=
  if hn : 1 ≤ n ∧ h.minReplicas ≤ n then some { h with maxReplicas := n, valid := hn } else none

/-- Deployments by namespace and name; autoscalers by namespace, in listing order. -/
structure Cluster where
  deployment : String → String → Option Deployment
  hpas : String → List Hpa
  hpa_names : ∀ ns, ((hpas ns).map Hpa.name).Nodup

def Cluster.empty : Cluster where
  deployment _ _ := none
  hpas _ := []
  hpa_names _ := List.nodup_nil

/-- Replace one Deployment. -/
def Cluster.setDeployment (c : Cluster) (ns name : String) (d : Deployment) : Cluster :=
  { c with deployment := fun ns' name' => if ns' = ns ∧ name' = name then some d
                                          else c.deployment ns' name' }

/-- Replace the autoscaler of one name, keeping its place and its name. -/
def replaceHpa (name : String) (new : Hpa) (h : Hpa) : Hpa :=
  if h.name = name then { new with name := h.name } else h

@[simp] theorem replaceHpa_name (name : String) (new h : Hpa) :
    (replaceHpa name new h).name = h.name := by
  unfold replaceHpa
  split <;> rfl

def Cluster.setHpa (c : Cluster) (ns name : String) (new : Hpa) : Cluster where
  deployment := c.deployment
  hpas ns' := if ns' = ns then (c.hpas ns).map (replaceHpa name new) else c.hpas ns'
  hpa_names ns' := by
    split
    · have := c.hpa_names ns
      simpa [List.map_map, Function.comp_def] using this
    · exact c.hpa_names ns'

/-- The autoscaler of a namespace with the given name. -/
def Cluster.hpa (c : Cluster) (ns name : String) : Option Hpa :=
  (c.hpas ns).find? fun h => h.name = name

/-- The first listed autoscaler that scales the given workload. -/
def Cluster.hpaOf (c : Cluster) (ns workload : String) : Option Hpa :=
  (c.hpas ns).find? fun h => h.target = workload

/-! ## What the write calls do -/

/-- `patch_namespaced_deployment` with a CPU limit. -/
def Cluster.patchDeployment {K : Type} (c : Cluster) (name ns container : String) (cpu : Json K) :
    Except Err Unit × Cluster :=
  match c.deployment ns name with
  | none => (.error (.api 404), c)
  | some d =>
      let patched :=
        match cpu with
        | .str q => d.patchCpuLimit container (some q)
        | .null => d.patchCpuLimit container none
        | _ => none
      match patched with
      | some d' => (.ok (), c.setDeployment ns name d')
      | none => (.error (.api 422), c)

/-- `patch_namespaced_horizontal_pod_autoscaler` with a replica maximum. -/
def Cluster.patchHpa {K : Type} (c : Cluster) (name ns : String) (maxReplicas : Json K) :
    Except Err Unit × Cluster :=
  match c.hpa ns name with
  | none => (.error (.api 404), c)
  | some h =>
      let patched :=
        match maxReplicas with
        | .int n => if 0 ≤ n then h.withMaxReplicas n.toNat else none
        | _ => none
      match patched with
      | some h' => (.ok (), c.setHpa ns name h')
      | none => (.error (.api 422), c)

end HyperTrace
