import HyperTrace.Proof.Containment
import HyperTrace.Text.JsonRoundTrip

/-!
# What a reference says is enough to undo

Throttle and freeze write down what they replaced, `rollback` reads it, and the
ledger's JSONB column lies between the two. A JSONB object keeps its pairs and not
their order. This module shows that the two halves agree on the format whatever the
order is, and that writing back one value, into the one container or the one
autoscaler the reference names, gives the cluster that was there before.
-/

namespace HyperTrace

/-! ## The cluster, read without the difference between no limits and an empty map -/

/-- The limits of a container by resource name. -/
def Container.limits (c : Container) : String → Option String :=
  (c.resources.bind Resources.limits).getD fun _ => none

/-- The container with its map of limits written out, be it empty. -/
def Container.normal (c : Container) : Container := { c with resources := some ⟨some c.limits⟩ }

@[simp] theorem Container.normal_name (c : Container) : c.normal.name = c.name := rfl

@[simp] theorem Container.normal_normal (c : Container) : c.normal.normal = c.normal := rfl

theorem Container.cpuLimit_eq (c : Container) : c.cpuLimit = c.limits "cpu" := by
  obtain ⟨name, resources⟩ := c
  cases resources <;> rfl

/-- The old limit is the one that is there, if only in a map that may be empty. -/
theorem Container.mergeCpu_self (c : Container) : c.mergeCpu c.cpuLimit = c.normal := by
  have hlimits : (fun k => if k = "cpu" then c.cpuLimit else c.limits k) = c.limits := by
    funext k
    by_cases hk : k = "cpu"
    · rw [if_pos hk, hk, c.cpuLimit_eq]
    · rw [if_neg hk]
  show (⟨c.name, some ⟨some fun k => if k = "cpu" then c.cpuLimit else c.limits k⟩⟩ : Container)
    = c.normal
  rw [hlimits]
  rfl

namespace Deployment

def normal (d : Deployment) : Deployment where
  first := d.first.normal
  rest := d.rest.map Container.normal
  names_nodup := by
    have := d.names_nodup
    simpa [List.map_map, Function.comp_def] using this

/-- Putting the old limit back leaves no trace of the new one. -/
theorem limitFirst_limitFirst (d : Deployment) (q : Option String) :
    ((d.limitFirst q).limitFirst d.first.cpuLimit).normal = d.normal := by
  simp only [normal, limitFirst, d.first.mergeCpu_twice, d.first.mergeCpu_self,
    Container.normal_normal]

end Deployment

namespace Cluster

def normal (c : Cluster) : Cluster :=
  { c with deployment := fun ns name => (c.deployment ns name).map Deployment.normal }

theorem setDeployment_restored {c : Cluster} {ns name : String} {d d' d'' : Deployment}
    (hd : c.deployment ns name = some d) (hrest : d''.normal = d.normal) :
    ((c.setDeployment ns name d').setDeployment ns name d'').normal = c.normal := by
  have hmaps : ∀ ns' name', (((c.setDeployment ns name d').setDeployment ns name d'').deployment
      ns' name').map Deployment.normal = (c.deployment ns' name').map Deployment.normal := by
    intro ns' name'
    simp only [setDeployment]
    by_cases hkey : ns' = ns ∧ name' = name
    · obtain ⟨rfl, rfl⟩ := hkey
      rw [if_pos ⟨rfl, rfl⟩, hd, Option.map_some, Option.map_some, hrest]
    · rw [if_neg hkey, if_neg hkey]
  simp only [normal, hmaps]
  rfl

end Cluster

end HyperTrace

namespace HyperTrace.Proof

open HyperTrace Effect Executor

variable {K : Type}

/-! ## The reference, on its way through the ledger -/

/--
What a JSONB column gives back for an object whose keys differ and whose values hold
no objects: the same pairs, in an order of its own.
-/
inductive ReadBack : Json K → Json K → Prop where
  | obj {kvs kvs' : List (String × Json K)} : kvs'.Perm kvs → ReadBack (.obj kvs) (.obj kvs')

theorem lookup_perm {α β : Type} [BEq α] [LawfulBEq α] {l l' : List (α × β)} (h : l'.Perm l)
    (hnodup : (l.map Prod.fst).Nodup) (key : α) : l'.lookup key = l.lookup key := by
  induction h with
  | nil => rfl
  | cons x _ ih =>
      rw [List.map_cons, List.nodup_cons] at hnodup
      rw [List.lookup_cons, List.lookup_cons, ih hnodup.2]
  -- two neighbours change places; their keys differ
  | swap x y l =>
      rw [List.map_cons, List.map_cons, List.nodup_cons] at hnodup
      have hne : x.1 ≠ y.1 := by
        intro heq
        exact hnodup.1 (heq ▸ List.mem_cons_self ..)
      rw [List.lookup_cons, List.lookup_cons, List.lookup_cons, List.lookup_cons]
      by_cases hx : key = x.1
      · have hy : (key == y.1) = false := by
          rw [beq_eq_false_iff_ne, hx]
          exact hne
        rw [hy]
      · rw [beq_eq_false_iff_ne.mpr hx]
  | trans h₁ h₂ ih₁ ih₂ =>
      rw [ih₁ ((h₂.map Prod.fst).nodup_iff.mpr hnodup), ih₂ hnodup]

/-- `rollback` reads a reference by its keys alone. -/
theorem rollback_congr {ref ref' : Json K} (h : ∀ key, ref'.subscript key = ref.subscript key) :
    rollback (Json.dumps ref') = rollback (Json.dumps ref) := by
  unfold rollback
  simp only [Json.loads_dumps, refText, h]

theorem ReadBack.rollback_eq {kvs : List (String × Json K)} {stored : Json K}
    (h : ReadBack (.obj kvs) stored) (hnodup : (kvs.map Prod.fst).Nodup) :
    rollback (Json.dumps stored) = rollback (Json.dumps (.obj kvs)) := by
  cases h with
  | obj hperm =>
      refine rollback_congr fun key => ?_
      simp only [Json.subscript, Json.item, Json.get, lookup_perm hperm hnodup]

/-- A stored reference is not taken for an empty one. -/
theorem ReadBack.truthy [Scalar K] {kvs : List (String × Json K)} {stored : Json K}
    (h : ReadBack (.obj kvs) stored) (hne : kvs ≠ []) : stored.truthy = true := by
  cases h with
  | @obj _ kvs' hperm =>
      have hne' : kvs' ≠ [] := by
        intro hnil
        rw [hnil] at hperm
        exact hne hperm.nil_eq.symm
      simpa [Json.truthy] using hne'

/-! ## The reference as a text

The actions hand on `json.dumps` of a reference, and `rollback` begins with `json.loads`. No
reference holds a float, so nothing depends on how floats are written.
-/

section Text

variable {T : JsonText.FloatText K}

theorem ReadBack.writable {ref stored : Json K} (h : ReadBack ref stored)
    (href : ref.Writable T) : stored.Writable T := by
  cases h with
  | obj hperm =>
      obtain ⟨hkeys, hvalues⟩ := href
      refine ⟨(hperm.map Prod.fst).nodup_iff.mpr hkeys, ?_⟩
      refine JsonText.writablePairs_iff.mpr fun p hp => ?_
      exact JsonText.writablePairs_iff.mp hvalues p (hperm.mem_iff.mp hp)

/-- The reference of an action. -/
inductive Reference : Json K → Prop where
  | throttle (ns deployment container : String) (previous : Option String) :
      Reference (throttleRef ns deployment container previous)
  | freeze (ns hpa : String) (previous : Nat) : Reference (freezeRef ns hpa previous)

theorem Reference.writable {ref : Json K} (h : Reference ref) : ref.Writable T := by
  cases h with
  | throttle ns deployment container previous =>
      have hkeys : ["kind", "namespace", "deployment", "container",
          "previous_cpu_limit"].Nodup := by decide
      have hprevious : (jsonOfText previous : Json K).Writable T := by cases previous <;> trivial
      exact ⟨hkeys, trivial, trivial, trivial, trivial, hprevious, trivial⟩
  | freeze ns hpa previous =>
      have hkeys : ["kind", "namespace", "hpa", "previous_max_replicas"].Nodup := by decide
      exact ⟨hkeys, trivial, trivial, trivial, trivial, trivial⟩

/-- **What the executor reads in the text of a stored reference is what was stored.** -/
theorem Reference.loads_dumps {ref stored : Json K} (h : Reference ref)
    (hstored : ReadBack ref stored) :
    JsonText.loads T (JsonText.dumps T Empty.elim stored) = some (Json.loads (Json.dumps stored)) :=
  JsonText.loads_dumps_json (hstored.writable h.writable)

end Text

/-! ## Rolling back -/

section Rollback

variable {choices : Nat → Choice} {w : World K} {cl : Cluster}

/-- One call that is not disturbed, and an outcome. -/
theorem run_patched [Scalar K] {o : Op K} {v : World K} {a : o.Res}
    (hexec : exec w o (choices 0) = (.ok a, v)) (out : Outcome K) :
    (call o >>= fun _ => Prog.ret out).run exec choices w = (.ok out, v) := by
  refine (Prog.run_perform_bind_ok exec choices w (fun _ => .ret _)
    (congrArg Prod.fst hexec)).trans ?_
  rw [hexec]
  rfl

/-- A rollback of a throttle whose one call is not disturbed. -/
theorem rollback_throttle_run [Scalar K] (hsound : (choices 0).fault = .none)
    {ns name container : String} {previous : Option String}
    (hpatch : w.cluster.patchDeployment (K := K) name ns container (jsonOfText previous)
      = (.ok (), cl)) :
    ∃ reason, (rollback (Json.dumps (throttleRef ns name container previous))).run exec choices w
      = (.ok ⟨.rolledBack, reason, none⟩, { w with cluster := cl }) := by
  have hexec : exec w (.patchDeployment name ns container (jsonOfText previous)) (choices 0)
      = (.ok (), { w with cluster := cl }) := by
    simp only [exec, hsound, faulty, hpatch]
    rfl
  exact ⟨_, run_patched hexec _⟩

/-- A rollback of a freeze whose one call is not disturbed. -/
theorem rollback_freeze_run [Scalar K] (hsound : (choices 0).fault = .none) {ns name : String}
    {max : Nat}
    (hpatch : w.cluster.patchHpa (K := K) name ns (.int max) = (.ok (), cl)) :
    ∃ reason, (rollback (Json.dumps (freezeRef ns name max))).run exec choices w
      = (.ok ⟨.rolledBack, reason, none⟩, { w with cluster := cl }) := by
  have hexec : exec w (.patchHpa name ns (.int max)) (choices 0)
      = (.ok (), { w with cluster := cl }) := by
    simp only [exec, hsound, faulty, hpatch]
    rfl
  exact ⟨_, run_patched hexec _⟩

end Rollback

/-! ## Throttle and freeze -/

/-- Nothing differs but the CPU limit of the first container of one Deployment. -/
structure OnlyCpuLimit (ns name : String) (c c' : Cluster) : Prop where
  hpas : c'.hpas = c.hpas
  others : ∀ ns' name', ¬ (ns' = ns ∧ name' = name) →
    c'.deployment ns' name' = c.deployment ns' name'
  there : ∃ d d', c.deployment ns name = some d ∧ c'.deployment ns name = some d'
    ∧ d'.rest = d.rest ∧ d'.first.name = d.first.name
    ∧ ∀ k, k ≠ "cpu" → d'.first.limits k = d.first.limits k

/-- Nothing differs but the replica maximum of one autoscaler. -/
structure OnlyMaxReplicas (ns name : String) (c c' : Cluster) : Prop where
  deployment : c'.deployment = c.deployment
  others : ∀ ns', ns' ≠ ns → c'.hpas ns' = c.hpas ns'
  there : List.Forall₂ (fun h h' => h' = h ∨ h.name = name
    ∧ ∃ n valid, h' = { h with maxReplicas := n, valid := valid }) (c.hpas ns) (c'.hpas ns)

theorem onlyCpuLimit_limitFirst {c : Cluster} {ns name : String} {d : Deployment}
    (hd : c.deployment ns name = some d) (q : Option String) :
    OnlyCpuLimit ns name c (c.setDeployment ns name (d.limitFirst q)) where
  hpas := rfl
  others ns' name' hne := if_neg hne
  there := by
    refine ⟨d, d.limitFirst q, hd, Cluster.setDeployment_self .., rfl, rfl, ?_⟩
    intro k hk
    exact if_neg hk

theorem onlyMaxReplicas_setHpa {c : Cluster} {ns : String} {h h' : Hpa} {n : Nat}
    (hh : h ∈ c.hpas ns) (hmax : h.withMaxReplicas n = some h') :
    OnlyMaxReplicas ns h.name c (c.setHpa ns h.name h') where
  deployment := rfl
  others ns' hne := if_neg hne
  there := by
    obtain ⟨valid, rfl⟩ := Hpa.withMaxReplicas_set hmax
    show List.Forall₂ _ (c.hpas ns) ((c.setHpa ns h.name _).hpas ns)
    simp only [Cluster.setHpa, ↓reduceIte, List.forall₂_map_right_iff]
    rw [List.forall₂_same]
    intro x hx
    by_cases hname : x.name = h.name
    · obtain rfl := Cluster.hpa_eq hx hh hname
      exact Or.inr ⟨rfl, n, valid, by simp [replaceHpa]⟩
    · exact Or.inl (if_neg hname)

variable [Scalar K]

/--
The action is undone by its reference. Once it was executed, whatever the environment
did, only `only` differs; the reference survives its passage through the ledger, and
a rollback whose one call is not disturbed restores the cluster, wherever else the
world has gone.
-/
def Undone (action : Py K (Outcome K)) (only : Cluster → Cluster → Prop) (w : World K) : Prop :=
  ∀ choices out w', action.run exec choices w = (.ok out, w') → out.status = .executed →
    only w.cluster w'.cluster
      ∧ ∃ ref, out.rollbackRef = some ref ∧ ∀ stored, ReadBack (Json.loads ref) stored →
        stored.truthy = true
          ∧ ∀ (choices' : Nat → Choice) (v : World K), (choices' 0).fault = .none →
            v.cluster = w'.cluster →
              ∃ reason cl, (rollback (Json.dumps stored)).run exec choices' v
                  = (.ok ⟨.rolledBack, reason, none⟩, { v with cluster := cl })
                ∧ cl.normal = w.cluster.normal

theorem throttle_undone (w : World K) {service ns name : String}
    (hs : splitService service = (ns, name)) :
    Undone (throttle service) (OnlyCpuLimit ns name) w := by
  intro choices out w' hrun hout
  have hens := (throttle_ensures w hs).run choices
  rw [hrun] at hens
  obtain ⟨d, hd, _, hw', href⟩ := hens out rfl hout
  dsimp only at hw'
  refine ⟨hw' ▸ onlyCpuLimit_limitFirst hd _, _, href, ?_⟩
  intro stored hstored
  refine ⟨hstored.truthy (by simp), ?_⟩
  intro choices' v hsound hv
  -- the reference names the first container and its limit as they were
  have hundo : v.cluster.patchDeployment (K := K) name ns d.first.name
      (jsonOfText d.first.cpuLimit) = (.ok (), v.cluster.setDeployment ns name
        ((d.limitFirst (some throttleCpuLimit)).limitFirst d.first.cpuLimit)) := by
    have hthere : v.cluster.deployment ns name = some (d.limitFirst (some throttleCpuLimit)) := by
      rw [hv, hw', Cluster.setDeployment_self]
    have hback := (d.limitFirst (some throttleCpuLimit)).patchCpuLimit_first d.first.cpuLimit
    simp only [Cluster.patchDeployment, hthere]
    cases hlimit : d.first.cpuLimit with
    | none =>
        rw [hlimit] at hback
        simp only [jsonOfText]
        rw [d.limitFirst_name] at hback
        rw [hback]
    | some q =>
        rw [hlimit] at hback
        simp only [jsonOfText]
        rw [d.limitFirst_name] at hback
        rw [hback]
  obtain ⟨reason, hroll⟩ := rollback_throttle_run hsound hundo
  have hread : rollback (Json.dumps stored)
      = rollback (Json.dumps (throttleRef ns name d.first.name d.first.cpuLimit)) :=
    hstored.rollback_eq (by simp)
  rw [← hread] at hroll
  refine ⟨reason, _, hroll, ?_⟩
  rw [hv, hw']
  exact Cluster.setDeployment_restored hd (d.limitFirst_limitFirst _)

theorem freeze_undone (w : World K) {service ns name : String}
    (hs : splitService service = (ns, name)) :
    Undone (freezeScaling service)
      (fun c c' => ∃ h, c.hpaOf ns name = some h ∧ OnlyMaxReplicas ns h.name c c') w := by
  intro choices out w' hrun hout
  have hens := (freeze_ensures w hs).run choices
  rw [hrun] at hens
  obtain ⟨h, n, hh, _, _, ⟨h', hmax, hw'⟩, href⟩ := hens out rfl hout
  dsimp only at hw'
  have hmem : h ∈ w.cluster.hpas ns := List.mem_of_find?_eq_some hh
  have hname : h'.name = h.name := by
    obtain ⟨_, hset⟩ := Hpa.withMaxReplicas_set hmax
    rw [hset]
  refine ⟨⟨h, hh, hw' ▸ onlyMaxReplicas_setHpa hmem hmax⟩, _, href, ?_⟩
  intro stored hstored
  refine ⟨hstored.truthy (by simp), ?_⟩
  intro choices' v hsound hv
  -- the HPA is found by its own name, which the patch has kept
  have hundo : v.cluster.patchHpa (K := K) h.name ns (.int h.maxReplicas)
      = (.ok (), v.cluster.setHpa ns h.name h) := by
    have hthere : v.cluster.hpa ns h.name = some h' := by
      rw [hv, hw', Cluster.hpa_setHpa (Cluster.hpa_of_hpaOf hh) hname]
    exact Cluster.patchHpa_some hthere (Hpa.withMaxReplicas_back hmax)
  obtain ⟨reason, hroll⟩ := rollback_freeze_run hsound hundo
  have hread : rollback (Json.dumps stored)
      = rollback (Json.dumps (freezeRef ns h.name h.maxReplicas)) :=
    hstored.rollback_eq (by simp)
  rw [← hread] at hroll
  refine ⟨reason, _, hroll, ?_⟩
  rw [hv, hw', Cluster.setHpa_twice, Cluster.setHpa_self hmem]

/--
**Throttle and freeze are exactly undone by their recorded reference.**

For every cluster and every service: an executed throttle has changed the CPU limit
of one container, an executed freeze the maximum of one autoscaler, and each is
`Undone`.
-/
theorem exactly_undone (w : World K) (service : String) :
    let ns := (splitService service).1
    let workload := (splitService service).2
    Undone (throttle service) (OnlyCpuLimit ns workload) w
      ∧ Undone (freezeScaling service)
          (fun c c' => ∃ h, c.hpaOf ns workload = some h ∧ OnlyMaxReplicas ns h.name c c') w :=
  ⟨throttle_undone w rfl, freeze_undone w rfl⟩

/-- There and back: the action is executed, and its own reference is rolled back. -/
def RoundTrip (action : Py K (Outcome K)) (only : Cluster → Cluster → Prop) (w : World K) : Prop :=
  ∃ out w' ref reason cl, action.run exec (sound id) w = (.ok out, w') ∧ out.status = .executed
    ∧ only w.cluster w'.cluster ∧ out.rollbackRef = some ref
    ∧ (rollback ref).run exec (sound id) w'
      = (.ok ⟨.rolledBack, reason, none⟩, { w' with cluster := cl })
    ∧ cl.normal = w.cluster.normal

theorem Undone.roundTrip {action : Py K (Outcome K)} {only : Cluster → Cluster → Prop} {w : World K}
    (h : Undone action only w)
    (hexecuted : (action.run exec (sound id) w).1.toOption.map Outcome.status = some .executed)
    (href : ∀ out w', action.run exec (sound id) w = (.ok out, w') → out.status = .executed →
      ∃ kvs, out.rollbackRef = some (Json.dumps (.obj kvs))) : RoundTrip action only w := by
  obtain ⟨r, w', hrun⟩ : ∃ r w', action.run exec (sound id) w = (r, w') := ⟨_, _, rfl⟩
  rw [hrun] at hexecuted
  cases r with
  | error e => cases hexecuted
  | ok out =>
      have hstatus : out.status = .executed := Option.some.inj hexecuted
      obtain ⟨kvs, hkvs⟩ := href out w' hrun hstatus
      obtain ⟨honly, ref, hout, hback⟩ := h (sound id) out w' hrun hstatus
      obtain rfl : ref = Json.dumps (.obj kvs) := Option.some.inj (hout.symm.trans hkvs)
      obtain ⟨_, hroll⟩ := hback (.obj kvs) (.obj (.refl kvs))
      obtain ⟨reason, cl, hroll, hsame⟩ := hroll (sound id) w' rfl rfl
      exact ⟨out, w', _, reason, cl, hrun, hstatus, honly, hkvs, hroll, hsame⟩

open Scenario in
/-- One core becomes a tenth and one core again, a maximum of three becomes five and three. -/
theorem exactly_undone_workload :
    let w := running (workload "1" 3 5 (by decide))
    RoundTrip (throttle "shop/victim") (OnlyCpuLimit "shop" "victim") w
      ∧ RoundTrip (freezeScaling "shop/victim")
        (fun c c' => ∃ h, c.hpaOf "shop" "victim" = some h ∧ OnlyMaxReplicas "shop" h.name c c')
        w := by
  intro w
  have hs : splitService "shop/victim" = ("shop", "victim") := by decide +kernel
  obtain ⟨hthrottle, hfreeze⟩ := exactly_undone w "shop/victim"
  rw [hs] at hthrottle hfreeze
  refine ⟨hthrottle.roundTrip (by decide +kernel) ?_, hfreeze.roundTrip (by decide +kernel) ?_⟩
  · intro out w' hrun hstatus
    have hens := (throttle_ensures w hs).run (sound id)
    rw [hrun] at hens
    obtain ⟨_, _, _, _, href⟩ := hens out rfl hstatus
    exact ⟨_, href⟩
  · intro out w' hrun hstatus
    have hens := (freeze_ensures w hs).run (sound id)
    rw [hrun] at hens
    obtain ⟨_, _, _, _, _, _, href⟩ := hens out rfl hstatus
    exact ⟨_, href⟩

end HyperTrace.Proof
