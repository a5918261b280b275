import HyperTrace.Collector.Collect

/-!
# Does a pod keep its identity?

A workload found once is cached, and found again after the TTL. What the cache keeps is
only a name: a lookup in which a read fails stores the pod's own name over the workload
it had. So the identity of a pod lasts as long as no lookup of it fails, and while the
entry is young there is no lookup. `identity_stable_iff` says so of every history of
calls, one call after the other.
-/

namespace HyperTrace.Collector

/-- A call of the resolver. What the API server answers may differ from one to the next. -/
inductive ResolverCall where
  | resolve (api : OwnerApi) (now : Time) (ns pod : ObjectName)
  | prune (liveKeys : List (ObjectName × ObjectName))

namespace ResolverCall

/-- The cache after the call. -/
def run (cache : Cache) : ResolverCall → Cache
  | resolve api now ns pod => (Collector.resolve api cache now ns pod).2
  | prune liveKeys => Collector.prune liveKeys cache

/-- The cache of a resolver that has served these calls. -/
def after (calls : List ResolverCall) : Cache := calls.foldl run fun _ => none

/-- At every call, with the cache it finds. -/
def Throughout (Q : Cache → ResolverCall → Prop) : Cache → List ResolverCall → Prop
  | _, [] => True
  | cache, call :: calls => Q cache call ∧ Throughout Q (run cache call) calls

/-- The pod is live: no pruning drops it. -/
def Spares (ns pod : ObjectName) (call : ResolverCall) : Prop :=
  ∀ liveKeys, call = prune liveKeys → (ns, pod) ∈ liveKeys

end ResolverCall

/-- Who owns a pod, and who owns the ReplicaSets that may. -/
structure Ownership where
  pod : List OwnerReference
  replicaSet : ObjectName → List OwnerReference

/-- The workload that the pod belongs to: its own, if nobody owns it. -/
def Ownership.workload (own : Ownership) (pod : ObjectName) : ObjectName :=
  match own.pod.head? with
  | none => pod
  | some owner =>
      if owner.kind = "ReplicaSet" then
        ((own.replicaSet owner.name).head?.map OwnerReference.name).getD owner.name
      else owner.name

/-- Of this pod the server tells the truth, wherever it answers. -/
structure Reports (own : Ownership) (ns pod : ObjectName) (api : OwnerApi) : Prop where
  pod : api.pod pod ns = .ok own.pod ∨ ∃ e, api.pod pod ns = .error e
  replicaSet : ∀ name, api.replicaSet name ns = .ok (own.replicaSet name)
    ∨ ∃ e, api.replicaSet name ns = .error e

/-- None of the reads that a lookup of the pod makes fails. -/
def LookupSucceeds (api : OwnerApi) (ns pod : ObjectName) : Prop :=
  ∃ owners, api.pod pod ns = .ok owners ∧ ∀ owner, owners.head? = some owner →
    owner.kind = "ReplicaSet" → ∃ rsOwners, api.replicaSet owner.name ns = .ok rsOwners

section Lookup

variable {own : Ownership} {api : OwnerApi} {ns pod : ObjectName}

theorem lookup_of_success (hr : Reports own ns pod api) (hs : LookupSucceeds api ns pod) :
    lookup api ns pod = own.workload pod := by
  obtain ⟨owners, hpod, hrs⟩ := hs
  have howners : owners = own.pod := by
    rcases hr.pod with h | ⟨e, h⟩
    · exact Except.ok.inj (hpod.symm.trans h)
    · rw [hpod] at h
      cases h
  subst howners
  unfold lookup Ownership.workload
  rw [hpod]
  dsimp only
  cases hhead : own.pod.head? with
  | none => rfl
  | some owner =>
      dsimp only
      by_cases hkind : owner.kind = "ReplicaSet"
      · obtain ⟨rsOwners, hrs⟩ := hrs owner hhead hkind
        rcases hr.replicaSet owner.name with h | ⟨e, h⟩
        · rw [if_pos hkind, if_pos hkind, h]
        · rw [hrs] at h
          cases h
      · rw [if_neg hkind, if_neg hkind]

/-- A failing read leaves the pod's own name. -/
theorem lookup_of_failure (h : ¬ LookupSucceeds api ns pod) : lookup api ns pod = pod := by
  unfold lookup
  cases hpod : api.pod pod ns with
  | error e => rfl
  | ok owners =>
      dsimp only
      cases hhead : owners.head? with
      | none => rfl
      | some owner =>
          dsimp only
          by_cases hkind : owner.kind = "ReplicaSet"
          · rw [if_pos hkind]
            cases hrs : api.replicaSet owner.name ns with
            | error e => rfl
            | ok rsOwners =>
                refine absurd ⟨owners, hpod, fun owner' hhead' _ => ?_⟩ h
                obtain rfl : owner = owner' := Option.some.inj (hhead.symm.trans hhead')
                exact ⟨rsOwners, hrs⟩
          · refine absurd ⟨owners, hpod, fun owner' hhead' hkind' => ?_⟩ h
            obtain rfl : owner = owner' := Option.some.inj (hhead.symm.trans hhead')
            exact absurd hkind' hkind

end Lookup

/-! ## A history of calls -/

section History

variable {own : Ownership} {ns pod workload : ObjectName}

/-- A resolve of the pod returns this workload. -/
def Returns (ns pod workload : ObjectName) (cache : Cache) (call : ResolverCall) : Prop :=
  ∀ api now, call = .resolve api now ns pod → (resolve api cache now ns pod).1 = workload

/--
A resolve of the pod finds a young entry, or all its reads succeed; or the pod is its own
workload, and there is nothing to lose.
-/
def Undisturbed (ns pod workload : ObjectName) (cache : Cache) (call : ResolverCall) : Prop :=
  ∀ api now, call = .resolve api now ns pod →
    Fresh cache now ns pod ∨ LookupSucceeds api ns pod ∨ pod = workload

/-- What a resolve of the pod returns is the workload, if this is what is cached and due. -/
theorem returns_of_undisturbed {cache : Cache} {call : ResolverCall}
    (hw : workload = own.workload pod)
    (hentry : ∃ seenAt, cache (ns, pod) = some (workload, seenAt))
    (hown : ∀ api now, call = .resolve api now ns pod → Reports own ns pod api)
    (h : Undisturbed ns pod workload cache call) : Returns ns pod workload cache call := by
  intro api now hcall
  obtain ⟨seenAt, hentry⟩ := hentry
  by_cases hfresh : Fresh cache now ns pod
  · obtain ⟨workload', seenAt', hentry', hyoung⟩ := hfresh
    rw [resolve_of_entry api hentry' hyoung]
    rw [hentry] at hentry'
    exact (congrArg Prod.fst (Option.some.inj hentry')).symm
  · rw [resolve_of_not_fresh api hfresh]
    rcases h api now hcall with hyes | hs | hself
    · exact absurd hyes hfresh
    · rw [lookup_of_success (hown api now hcall) hs, hw]
    · by_cases hs : LookupSucceeds api ns pod
      · rw [lookup_of_success (hown api now hcall) hs, hw]
      · rw [lookup_of_failure hs]
        exact hself

/-- **What a call does to the entry**: while the pod lives and is resolved to it, it stays. -/
theorem entry_run {cache : Cache} {call : ResolverCall}
    (hentry : ∃ seenAt, cache (ns, pod) = some (workload, seenAt)) (hlive : call.Spares ns pod)
    (hret : Returns ns pod workload cache call) :
    ∃ seenAt, call.run cache (ns, pod) = some (workload, seenAt) := by
  cases call with
  | prune liveKeys =>
      obtain ⟨seenAt, hentry⟩ := hentry
      exact ⟨seenAt, (if_pos (hlive liveKeys rfl)).trans hentry⟩
  | resolve api now ns' pod' =>
      by_cases hkey : (ns, pod) = (ns', pod')
      · obtain ⟨rfl, rfl⟩ := Prod.mk.inj hkey
        obtain ⟨seenAt, hcached⟩ := resolve_entry api cache now ns pod
        rw [hret api now rfl] at hcached
        exact ⟨seenAt, hcached⟩
      · obtain ⟨seenAt, hentry⟩ := hentry
        exact ⟨seenAt, (resolve_other hkey).trans hentry⟩

/-- The same of a whole history: with every call undisturbed, every resolve returns the workload. -/
theorem throughout_returns {cache : Cache} {calls : List ResolverCall}
    (hw : workload = own.workload pod)
    (hentry : ∃ seenAt, cache (ns, pod) = some (workload, seenAt))
    (hown : ∀ api now, .resolve api now ns pod ∈ calls → Reports own ns pod api)
    (hlive : ∀ call ∈ calls, call.Spares ns pod)
    (h : ResolverCall.Throughout (Undisturbed ns pod workload) cache calls) :
    ResolverCall.Throughout (Returns ns pod workload) cache calls := by
  induction calls generalizing cache with
  | nil => trivial
  | cons call calls ih =>
      obtain ⟨hcall, hrest⟩ := h
      have hret := returns_of_undisturbed hw hentry
        (fun api now heq => hown api now (heq ▸ List.mem_cons_self ..)) hcall
      refine ⟨hret, ih ?_ ?_ ?_ hrest⟩
      · exact entry_run hentry (hlive call (List.mem_cons_self ..)) hret
      · exact fun api now hmem => hown api now (List.mem_cons_of_mem _ hmem)
      · exact fun c hc => hlive c (List.mem_cons_of_mem _ hc)

/-- A resolve that returns the workload was not disturbed. -/
theorem undisturbed_of_returns {cache : Cache} {call : ResolverCall}
    (h : Returns ns pod workload cache call) : Undisturbed ns pod workload cache call := by
  intro api now hcall
  by_cases hfresh : Fresh cache now ns pod
  · exact .inl hfresh
  by_cases hs : LookupSucceeds api ns pod
  · exact .inr (.inl hs)
  have hret := h api now hcall
  rw [resolve_of_not_fresh api hfresh] at hret
  exact .inr (.inr ((lookup_of_failure hs).symm.trans hret))

theorem ResolverCall.Throughout.imp {Q R : Cache → ResolverCall → Prop}
    (hQR : ∀ cache call, Q cache call → R cache call) {cache : Cache} {calls : List ResolverCall}
    (h : Throughout Q cache calls) : Throughout R cache calls := by
  induction calls generalizing cache with
  | nil => trivial
  | cons call calls ih => exact ⟨hQR _ _ h.1, ih h.2⟩

/--
**How long a resolved identity is stable.** After the first resolve of a pod whose lookup
succeeded, every later one returns the same workload exactly if none of them is a lookup
in which a read fails, unless the pod is its own workload.
-/
theorem identity_stable_iff (before later : List ResolverCall) {api : OwnerApi} {now : Time}
    (hfirst : ¬ Fresh (ResolverCall.after before) now ns pod) (hs : LookupSucceeds api ns pod)
    (hown : ∀ api' now', .resolve api' now' ns pod ∈ .resolve api now ns pod :: later →
      Reports own ns pod api')
    (hlive : ∀ call ∈ later, call.Spares ns pod) :
    let found := resolve api (ResolverCall.after before) now ns pod
    ResolverCall.Throughout (Returns ns pod found.1) found.2 later
      ↔ ResolverCall.Throughout (Undisturbed ns pod (own.workload pod)) found.2 later := by
  have hfound : (resolve api (ResolverCall.after before) now ns pod).1 = own.workload pod := by
    rw [resolve_of_not_fresh api hfirst]
    exact lookup_of_success (hown api now (List.mem_cons_self ..)) hs
  dsimp only
  rw [hfound]
  constructor
  · exact ResolverCall.Throughout.imp fun _ _ => undisturbed_of_returns
  · refine throughout_returns rfl (hfound ▸ resolve_entry ..) ?_ hlive
    exact fun api' now' hmem => hown api' now' (List.mem_cons_of_mem _ hmem)

end History

/-! ## A read that fails after the entry has expired -/

namespace Outage

def infra : ObjectName := ⟨"infra", by decide, by decide⟩
def agent : ObjectName := ⟨"agent", by decide, by decide⟩
def agentPod : ObjectName := ⟨"agent-7hx", by decide, by decide⟩

def daemon : Ownership := ⟨[⟨"DaemonSet", agent⟩], fun _ => []⟩

/-- The API server answers. -/
def up : OwnerApi := ⟨fun _ _ => .ok daemon.pod, fun name _ => .ok (daemon.replicaSet name)⟩

/-- The API server is down. -/
def down : OwnerApi := ⟨fun _ _ => .error .other, fun _ _ => .error .other⟩

end Outage

open Outage in
theorem identity_lost :
    let found := resolve up (ResolverCall.after []) 0 infra agentPod
    found.1 = agent ∧ (resolve down found.2 cacheTtl infra agentPod).1 = agentPod
      ∧ agentPod ≠ agent := by
  decide +kernel

open Outage in
theorem identity_stable_iff_young :
    let found := resolve up (ResolverCall.after []) 0 infra agentPod
    let later :=
      [ResolverCall.resolve down (cacheTtl - 1) infra agentPod, .prune [(infra, agentPod)]]
    ResolverCall.Throughout (Returns infra agentPod found.1) found.2 later
      ↔ ResolverCall.Throughout (Undisturbed infra agentPod (daemon.workload agentPod)) found.2
        later := by
  refine @identity_stable_iff daemon infra agentPod [] _ _ _ ?_ ?_ ?_ ?_
  · intro h
    obtain ⟨workload, seenAt, hentry, -⟩ := h
    cases hentry
  · exact ⟨_, rfl, fun owner hhead hkind => ⟨_, rfl⟩⟩
  · intro api now hmem
    rcases List.mem_cons.mp hmem with heq | hmem
    · cases heq
      exact ⟨.inl rfl, fun _ => .inl rfl⟩
    · rcases List.mem_cons.mp hmem with heq | hmem
      · cases heq
        exact ⟨.inr ⟨_, rfl⟩, fun _ => .inr ⟨_, rfl⟩⟩
      · cases List.mem_singleton.mp hmem
  · intro call hcall liveKeys heq
    subst heq
    rcases List.mem_cons.mp hcall with h | h
    · cases h
    · cases List.mem_singleton.mp h
      exact List.mem_cons_self ..

end HyperTrace.Collector
