import HyperTrace.Common.Cluster
import Mathlib.Data.List.Find
import Mathlib.Data.List.Nodup

/-!
# Patching a cluster

The two patches the executor sends, and what they leave: the one container or the
one autoscaler they name has the new value, everything else is as it was. Setting a
second value forgets the first, so the same patch sent twice is sent once, and the
old value sent back undoes the new one.
-/

namespace HyperTrace

/-! ## Deployments -/

theorem Container.mergeCpu_twice (c : Container) (q q' : Option String) :
    (c.mergeCpu q).mergeCpu q' = c.mergeCpu q' := by
  unfold mergeCpu
  simp only [Option.bind_some, Option.getD_some, mk.injEq, Option.some.injEq, Resources.mk.injEq,
    true_and]
  funext k
  by_cases hk : k = "cpu" <;> simp only [hk, ↓reduceIte]

theorem mergeByName_twice (name : String) (q q' : Option String) (c : Container) :
    mergeByName name q' (mergeByName name q c) = mergeByName name q' c := by
  by_cases hname : c.name = name
  · simp only [mergeByName, hname, ↓reduceIte, Container.mergeCpu_name, c.mergeCpu_twice]
  · simp only [mergeByName, hname, ↓reduceIte]

namespace Deployment

/-- The Deployment with another CPU limit on its first container. -/
def limitFirst (d : Deployment) (q : Option String) : Deployment where
  first := d.first.mergeCpu q
  rest := d.rest
  names_nodup := d.names_nodup

@[simp] theorem limitFirst_name (d : Deployment) (q : Option String) :
    (d.limitFirst q).first.name = d.first.name := rfl

@[simp] theorem limitFirst_cpuLimit (d : Deployment) (q : Option String) :
    (d.limitFirst q).first.cpuLimit = q := rfl

/-- A patch of the first container's limit reaches that container and no other. -/
theorem patchCpuLimit_first (d : Deployment) (q : Option String) :
    d.patchCpuLimit d.first.name q = some (d.limitFirst q) := by
  have hnodup := d.names_nodup
  rw [List.map_cons, List.nodup_cons] at hnodup
  have hrest : d.rest.map (mergeByName d.first.name q) = d.rest := by
    rw [List.map_congr_left (g := id) fun c hc => ?_, List.map_id]
    refine if_neg ?_
    intro hname
    exact hnodup.1 (hname ▸ List.mem_map_of_mem hc)
  unfold patchCpuLimit
  rw [if_pos (by simp)]
  simp only [hrest, limitFirst, mergeByName, ↓reduceIte]

theorem patchCpuLimit_twice {d d' d'' : Deployment} {name : String} {q : Option String}
    (h : d.patchCpuLimit name q = some d') (h' : d'.patchCpuLimit name q = some d'') : d'' = d' := by
  unfold patchCpuLimit at h h'
  split at h
  · split at h'
    · cases h
      cases h'
      simp [mergeByName_twice]
    · cases h'
  · cases h

end Deployment

/-- The limit a patch sets, if it is one the API server can read. -/
def limitIn {K : Type} : Json K → Option (Option String)
  | .str q => some (some q)
  | .null => some none
  | _ => none

namespace Cluster

variable {K : Type} {c c' c'' : Cluster} {ns name : String}

theorem setDeployment_self (c : Cluster) (ns name : String) (d : Deployment) :
    (c.setDeployment ns name d).deployment ns name = some d := by
  simp [setDeployment]

theorem setDeployment_twice (c : Cluster) (ns name : String) (d d' : Deployment) :
    (c.setDeployment ns name d).setDeployment ns name d' = c.setDeployment ns name d' := by
  simp only [setDeployment, mk.injEq, and_true]
  funext ns' name'
  by_cases hkey : ns' = ns ∧ name' = name
  · rw [if_pos hkey, if_pos hkey]
  · rw [if_neg hkey, if_neg hkey, if_neg hkey]

/-- An accepted patch of a Deployment has put a patched one in its place. -/
theorem patchDeployment_ok {container : String} {cpu : Json K}
    (h : c.patchDeployment name ns container cpu = (.ok (), c')) :
    ∃ d d' q, c.deployment ns name = some d ∧ limitIn cpu = some q
      ∧ d.patchCpuLimit container q = some d' ∧ c' = c.setDeployment ns name d' := by
  unfold patchDeployment at h
  split at h
  · cases h
  · rename_i d hd
    dsimp only at h
    split at h
    · rename_i d' hpatched
      cases h
      split at hpatched
      · exact ⟨d, d', _, hd, rfl, hpatched, rfl⟩
      · exact ⟨d, d', _, hd, rfl, hpatched, rfl⟩
      · cases hpatched
    · cases h

theorem patchDeployment_first {d : Deployment} (hd : c.deployment ns name = some d) (q : String) :
    c.patchDeployment (K := K) name ns d.first.name (.str q)
      = (.ok (), c.setDeployment ns name (d.limitFirst (some q))) := by
  simp only [patchDeployment, hd, d.patchCpuLimit_first]

theorem patchDeployment_twice {container : String} {cpu : Json K}
    (h : c.patchDeployment name ns container cpu = (.ok (), c'))
    (h' : c'.patchDeployment name ns container cpu = (.ok (), c'')) : c'' = c' := by
  obtain ⟨d, d', q, hd, hq, hpatch, rfl⟩ := patchDeployment_ok h
  obtain ⟨d₁, d'', q', hd₁, hq', hpatch', rfl⟩ := patchDeployment_ok h'
  obtain rfl : q = q' := Option.some.inj (hq.symm.trans hq')
  rw [setDeployment_self] at hd₁
  obtain rfl : d' = d₁ := Option.some.inj hd₁
  rw [Deployment.patchCpuLimit_twice hpatch hpatch', setDeployment_twice]

end Cluster

/-! ## Autoscalers -/

theorem Hpa.withMaxReplicas_set {h h' : Hpa} {n : Nat} (hmax : h.withMaxReplicas n = some h') :
    ∃ valid, h' = { h with maxReplicas := n, valid := valid } := by
  unfold withMaxReplicas at hmax
  split at hmax
  · rename_i hvalid
    exact ⟨hvalid, (Option.some.inj hmax).symm⟩
  · cases hmax

/-- The old maximum can always be set again. -/
theorem Hpa.withMaxReplicas_back {h h' : Hpa} {n : Nat} (hmax : h.withMaxReplicas n = some h') :
    h'.withMaxReplicas h.maxReplicas = some h := by
  obtain ⟨valid, rfl⟩ := withMaxReplicas_set hmax
  exact dif_pos h.valid

theorem replaceHpa_twice (name : String) (h h' x : Hpa) :
    replaceHpa name h' (replaceHpa name h x) = replaceHpa name h' x := by
  by_cases hname : x.name = name <;> simp [replaceHpa, hname]

theorem replaceHpa_self (h : Hpa) (x : Hpa) (hx : x.name = h.name → x = h) :
    replaceHpa h.name h x = x := by
  by_cases hname : x.name = h.name
  · rw [hx hname]
    simp [replaceHpa]
  · exact if_neg hname

namespace Cluster

variable {K : Type} {c c' c'' : Cluster} {ns name workload : String} {h h' new : Hpa}

/-- In a namespace the name of an autoscaler says which one it is. -/
theorem hpa_eq (hh : h ∈ c.hpas ns) (hh' : h' ∈ c.hpas ns) (hname : h.name = h'.name) : h = h' :=
  List.inj_on_of_nodup_map (c.hpa_names ns) hh hh' hname

theorem mem_of_hpa (hh : c.hpa ns name = some h) : h ∈ c.hpas ns ∧ h.name = name :=
  ⟨List.mem_of_find?_eq_some hh, by simpa using List.find?_some hh⟩

theorem hpa_of_mem (hmem : h ∈ c.hpas ns) : c.hpa ns h.name = some h := by
  unfold hpa
  cases hf : (c.hpas ns).find? fun x => x.name = h.name with
  | none =>
      have := List.find?_eq_none.mp hf h hmem
      simp at this
  | some x =>
      have hname : x.name = h.name := by simpa using List.find?_some hf
      rw [hpa_eq (List.mem_of_find?_eq_some hf) hmem hname]

theorem hpa_of_hpaOf (hh : c.hpaOf ns workload = some h) : c.hpa ns h.name = some h :=
  hpa_of_mem (List.mem_of_find?_eq_some hh)

theorem setHpa_hpas (c : Cluster) (ns name : String) (new : Hpa) :
    (c.setHpa ns name new).hpas ns = (c.hpas ns).map (replaceHpa name new) :=
  if_pos rfl

theorem setHpa_twice (c : Cluster) (ns name : String) (h h' : Hpa) :
    (c.setHpa ns name h).setHpa ns name h' = c.setHpa ns name h' := by
  have htwice : replaceHpa name h' ∘ replaceHpa name h = replaceHpa name h' :=
    funext (replaceHpa_twice name h h')
  simp only [setHpa, mk.injEq, true_and]
  funext ns'
  by_cases hns : ns' = ns
  · rw [if_pos hns, if_pos hns, if_pos trivial, List.map_map, htwice]
  · rw [if_neg hns, if_neg hns, if_neg hns]

/-- Setting an autoscaler to what it is changes nothing. -/
theorem setHpa_self (hh : h ∈ c.hpas ns) : c.setHpa ns h.name h = c := by
  have hself : (c.hpas ns).map (replaceHpa h.name h) = c.hpas ns := by
    rw [List.map_congr_left (g := id) fun x hx => ?_, List.map_id]
    exact replaceHpa_self h x (hpa_eq hx hh)
  have hhpas : (c.setHpa ns h.name h).hpas = c.hpas := by
    funext ns'
    simp only [setHpa]
    by_cases hns : ns' = ns
    · rw [if_pos hns, hns, hself]
    · rw [if_neg hns]
  obtain ⟨deployment, hpas, names⟩ := c
  simp only [setHpa, mk.injEq, true_and] at hhpas ⊢
  exact hhpas

/-- The autoscaler under a name, after it was replaced. -/
theorem hpa_setHpa (hh : c.hpa ns name = some h) (hname : new.name = h.name) :
    (c.setHpa ns name new).hpa ns name = some new := by
  obtain ⟨_, rfl⟩ := mem_of_hpa hh
  have hfind : (c.hpas ns).find? ((fun x => decide (x.name = h.name)) ∘ replaceHpa h.name new)
      = some h := by
    rw [← hh]
    exact List.find?_congr fun x _ => by simp
  rw [hpa, setHpa_hpas, List.find?_map, hfind, Option.map_some]
  simp [replaceHpa, ← hname]

/-- Another autoscaler is not affected. -/
theorem hpa_setHpa_ne {ns' name' : String} (hne : ¬ (ns' = ns ∧ name' = name)) :
    (c.setHpa ns name new).hpa ns' name' = c.hpa ns' name' := by
  unfold hpa
  by_cases hns : ns' = ns
  · have hname : name' ≠ name := fun heq => hne ⟨hns, heq⟩
    rw [hns, setHpa_hpas, List.find?_map]
    have hkeep : ∀ x ∈ c.hpas ns, x.name = name' → replaceHpa name new x = x := by
      intro x _ hx
      exact if_neg fun heq => hname (hx.symm.trans heq)
    have hfind : (c.hpas ns).find? ((fun x => decide (x.name = name')) ∘ replaceHpa name new)
        = (c.hpas ns).find? fun x => decide (x.name = name') :=
      List.find?_congr fun x _ => by simp
    rw [hfind]
    cases hf : (c.hpas ns).find? fun x => decide (x.name = name') with
    | none => rfl
    | some x =>
        have hx : x.name = name' := by simpa using List.find?_some hf
        rw [Option.map_some, hkeep x (List.mem_of_find?_eq_some hf) hx]
  · exact congrArg _ (if_neg hns)

/-- Replacing the autoscaler of a workload by one for the same workload is seen there. -/
theorem hpaOf_setHpa (hh : c.hpaOf ns workload = some h) (hname : new.name = h.name)
    (htarget : new.target = h.target) :
    (c.setHpa ns h.name new).hpaOf ns workload = some new := by
  have hmem : h ∈ c.hpas ns := List.mem_of_find?_eq_some hh
  have hself : replaceHpa h.name new h = new := by
    simp [replaceHpa, ← hname]
  have hsame : ∀ x ∈ c.hpas ns, (replaceHpa h.name new x).target = x.target := by
    intro x hx
    by_cases heq : x.name = h.name
    · obtain rfl := hpa_eq hx hmem heq
      rw [hself, htarget]
    · rw [replaceHpa, if_neg heq]
  rw [hpaOf, setHpa_hpas, List.find?_map]
  have hfind : (c.hpas ns).find? ((fun x => decide (x.target = workload)) ∘ replaceHpa h.name new)
      = some h := by
    rw [← hh]
    exact List.find?_congr fun x hx => by simp [hsame x hx]
  rw [hfind, Option.map_some, hself]

/-- An accepted patch of an autoscaler has put one with another maximum in its place. -/
theorem patchHpa_ok {max : Json K} (hok : c.patchHpa name ns max = (.ok (), c')) :
    ∃ h h' n, c.hpa ns name = some h ∧ max = .int (n : ℕ) ∧ h.withMaxReplicas n = some h'
      ∧ c' = c.setHpa ns name h' := by
  unfold patchHpa at hok
  split at hok
  · cases hok
  · rename_i h hh
    dsimp only at hok
    split at hok
    · rename_i h' hpatched
      cases hok
      split at hpatched
      · rename_i n
        split at hpatched
        · rename_i hn
          exact ⟨h, h', n.toNat, hh, by rw [Int.toNat_of_nonneg hn], hpatched, rfl⟩
        · cases hpatched
      · cases hpatched
    · cases hok

theorem patchHpa_some (hh : c.hpa ns name = some h) {n : Nat} (hmax : h.withMaxReplicas n = some h') :
    c.patchHpa (K := K) name ns (.int n) = (.ok (), c.setHpa ns name h') := by
  simp [patchHpa, hh, hmax]

theorem patchHpa_none (hh : c.hpa ns name = some h) {n : Nat} (hmax : h.withMaxReplicas n = none) :
    c.patchHpa (K := K) name ns (.int n) = (.error (.api 422), c) := by
  simp [patchHpa, hh, hmax]

/-- After an accepted patch the autoscaler has the maximum that was sent. -/
theorem hpa_of_patchHpa {n : Nat} (hok : c.patchHpa (K := K) name ns (.int n) = (.ok (), c')) :
    ∃ h h', c.hpa ns name = some h ∧ h.withMaxReplicas n = some h' ∧ c' = c.setHpa ns name h'
      ∧ c'.hpa ns name = some h' := by
  obtain ⟨h, h', n', hh, hn, hmax, rfl⟩ := patchHpa_ok hok
  obtain rfl : n = n' := by
    cases hn
    rfl
  obtain ⟨_, hset⟩ := Hpa.withMaxReplicas_set hmax
  exact ⟨h, h', hh, hmax, rfl, hpa_setHpa hh (by rw [hset])⟩

theorem patchHpa_twice {max : Json K} (hok : c.patchHpa name ns max = (.ok (), c'))
    (hok' : c'.patchHpa name ns max = (.ok (), c'')) : c'' = c' := by
  obtain ⟨_, _, n, _, rfl, _⟩ := patchHpa_ok hok
  obtain ⟨h, h', hh, hmax, rfl, hh'⟩ := hpa_of_patchHpa hok
  obtain ⟨h₁, h'', hh₁, hmax', rfl, _⟩ := hpa_of_patchHpa hok'
  obtain rfl : h' = h₁ := Option.some.inj (hh'.symm.trans hh₁)
  -- the maximum is the one it has already
  obtain ⟨_, rfl⟩ := Hpa.withMaxReplicas_set hmax
  obtain ⟨_, rfl⟩ := Hpa.withMaxReplicas_set hmax'
  exact setHpa_twice ..

end Cluster

end HyperTrace
