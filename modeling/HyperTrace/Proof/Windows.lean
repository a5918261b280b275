import HyperTrace.Effect.Latest
import HyperTrace.Proof.Correlation

/-!
# Corroboration windows, and when things happened

A lifecycle message and a security signal carry the time of what they report, and
the decision engine does not read it: it remembers when it handled the message.
Messages wait in durable queues, also while the engine is down, and the watcher is
sent again, with every new stream, all events that still exist. Both windows run from
the handling, so they are as late as the latest message was.
-/

namespace HyperTrace

/-- The timestamp of the message the watcher emits for an event. -/
def Collector.eventTimestamp (raw : CoreEvent) : Option Time :=
  raw.lastTimestamp <|> raw.eventTime <|> raw.firstTimestamp

namespace Proof

open HyperTrace Effect Decision Collector

/-! ## Histories -/

/-- A message the engine handles, with the timestamp it carries; or a start of the engine. -/
inductive Delivery where
  | lifecycle (timestamp : Time) (message : LifecycleEvent)
  | security (timestamp : Time) (message : SecuritySignal)
  | restart

def Delivery.timestamp : Delivery → Option Time
  | .lifecycle t _ => some t
  | .security t _ => some t
  | .restart => none

structure Handled where
  time : Time
  delivery : Delivery

/-- A new process has empty maps. -/
def Handled.forgets (d : Handled) : Bool :=
  match d.delivery with
  | .restart => true
  | _ => false

/-- The key a lifecycle message is recorded under, if it counts as a deployment. -/
def deploymentKey (m : LifecycleEvent) : Option String :=
  if m.eventType ∈ deploymentLikeEvents then (lifecycleKey m).filter (· ≠ "") else none

/-- The timestamp of a deployment-like event keyed to the service. -/
def Handled.deployment (service : String) (d : Handled) : Option Time :=
  match d.delivery with
  | .lifecycle t m => if deploymentKey m = some service then some t else none
  | _ => none

/-- The timestamp of a security signal for the service. -/
def Handled.signal (service : String) (d : Handled) : Option Time :=
  match d.delivery with
  | .security t m => if m.service = service then some t else none
  | _ => none

/-- What the engine handled, newest first; nothing was handled before it happened. -/
structure History where
  now : Time
  handled : List Handled
  past : ∀ d ∈ handled, d.time ≤ now
  caused : ∀ d ∈ handled, ∀ t, d.delivery.timestamp = some t → t ≤ d.time

variable {K : Type}

/-- One delivery handled, at its time. -/
def Handled.run [Scalar K] (d : Handled) (w : World K) : World K :=
  let w := { w with clock := d.time }
  match d.delivery with
  | .lifecycle _ m => ((handleLifecycle m).run exec (sound id) w).2
  | .security _ m => ((handleSecuritySignal m).run exec (sound id) w).2
  | .restart => { w with recentEvents := fun _ => none, recentSecurity := fun _ => none }

/-- The world after a list of deliveries, the first of them to a new process. -/
def replayed [Scalar K] (w : World K) : List Handled → World K
  | [] => { w with recentEvents := fun _ => none, recentSecurity := fun _ => none }
  | d :: l => d.run (replayed w l)

/-- The world at a time after the history. -/
def History.at [Scalar K] (h : History) (w : World K) (t : Time) : World K :=
  { replayed w h.handled with clock := t }

/-! ## What the maps hold -/

/-- A lifecycle message moves the one map, and not the other. -/
theorem handleLifecycle_maps [Scalar K] (w : World K) (m : LifecycleEvent) :
    ((handleLifecycle m).run exec (sound id) w).2.recentEvents
        = record w.recentEvents w.clock (deploymentKey m)
      ∧ ((handleLifecycle m).run exec (sound id) w).2.recentSecurity = w.recentSecurity := by
  rw [handleLifecycle_run]
  exact ⟨rfl, rfl⟩

/-- **The map of events holds the time at which the latest message for a key was handled.** -/
theorem recentEvents_replayed [Scalar K] (w : World K) (l : List Handled) (service : String) :
    (replayed w l).recentEvents service
      = (remembered Handled.forgets (Handled.deployment service) l).map Handled.time := by
  induction l with
  | nil => rfl
  | cons d l ih =>
      obtain ⟨time, delivery⟩ := d
      cases delivery with
      | restart => rfl
      | security t m => exact ih
      | lifecycle t m =>
          have hrun := (handleLifecycle_maps { replayed w l with clock := time } m).1
          have hmap : (replayed w (⟨time, .lifecycle t m⟩ :: l)).recentEvents service
              = record (replayed w l).recentEvents time (deploymentKey m) service :=
            congrFun hrun service
          rw [hmap]
          by_cases hkey : deploymentKey m = some service
          · simp [remembered, Handled.forgets, Handled.deployment, hkey, record]
          · have hskip : remembered Handled.forgets (Handled.deployment service)
                (⟨time, .lifecycle t m⟩ :: l)
                  = remembered Handled.forgets (Handled.deployment service) l := by
              simp [remembered, Handled.forgets, Handled.deployment, hkey]
            rw [hskip, ← ih]
            cases hk : deploymentKey m with
            | none => rfl
            | some key =>
                refine put_ne _ _ ?_
                intro h
                subst h
                exact hkey hk

/-- **The map of signals holds the time at which the latest signal for a service was handled.** -/
theorem recentSecurity_replayed [Scalar K] (w : World K) (l : List Handled) (service : String) :
    ((replayed w l).recentSecurity service).map Prod.fst
      = (remembered Handled.forgets (Handled.signal service) l).map Handled.time := by
  induction l with
  | nil => rfl
  | cons d l ih =>
      obtain ⟨time, delivery⟩ := d
      cases delivery with
      | restart => rfl
      | lifecycle t m =>
          have hrun := (handleLifecycle_maps { replayed w l with clock := time } m).2
          have hmap : (replayed w (⟨time, .lifecycle t m⟩ :: l)).recentSecurity service
              = (replayed w l).recentSecurity service := congrFun hrun service
          rw [hmap]
          exact ih
      | security t m =>
          have hmap : (replayed w (⟨time, .security t m⟩ :: l)).recentSecurity
              = put (replayed w l).recentSecurity m.service (time, m.rule) := rfl
          rw [hmap]
          by_cases hkey : m.service = service
          · subst hkey
            simp [remembered, Handled.forgets, Handled.signal]
          · rw [put_ne _ _ (Ne.symm hkey), ih]
            simp [remembered, Handled.forgets, Handled.signal, hkey]

/-! ## The windows -/

section

variable {cfg : Decision.Config} {h : History} {w : World K} {service : String} {t : Time}

/-- What `_recent_deployment` returns at a time after the history. -/
def SaysDeployed [Scalar K] (cfg : Decision.Config) (h : History) (w : World K) (service : String)
    (t : Time) : Prop :=
  ((recentDeployment cfg service).run exec (sound id) (h.at w t)).1 = .ok true

/-- `_recent_security_signal` returns a rule at a time after the history. -/
def SaysSignalled [Scalar K] (cfg : Decision.Config) (h : History) (w : World K) (service : String)
    (t : Time) : Prop :=
  ∃ rule, ((recentSecuritySignal cfg service).run exec (sound id) (h.at w t)).1 = .ok (some rule)

theorem saysDeployed_iff [Scalar K] :
    SaysDeployed cfg h w service t
      ↔ ∃ d, remembered Handled.forgets (Handled.deployment service) h.handled = some d
        ∧ t - d.time ≤ minutes cfg.recentDeploymentWindowMinutes := by
  have hmap : (h.at w t).recentEvents service = _ := recentEvents_replayed w h.handled service
  rw [SaysDeployed, recentDeployment_run]
  unfold deployed
  rw [hmap]
  cases remembered Handled.forgets (Handled.deployment service) h.handled with
  | none => simp
  | some d => simp [History.at]

theorem saysSignalled_iff [Scalar K] :
    SaysSignalled cfg h w service t
      ↔ ∃ d, remembered Handled.forgets (Handled.signal service) h.handled = some d
        ∧ t - d.time ≤ minutes cfg.securitySignalWindowMinutes := by
  have hmap := recentSecurity_replayed w h.handled service
  have hsame : (h.at w t).recentSecurity = (replayed w h.handled).recentSecurity := rfl
  unfold SaysSignalled
  rw [recentSecuritySignal_run]
  unfold signalled
  rw [hsame]
  generalize (replayed w h.handled).recentSecurity service = entry at hmap ⊢
  cases hr : remembered Handled.forgets (Handled.signal service) h.handled with
  | none =>
      rw [hr] at hmap
      obtain rfl := Option.map_eq_none_iff.mp hmap
      simp
  | some d =>
      rw [hr] at hmap
      obtain ⟨⟨seenAt, rule⟩, rfl, hseen⟩ := Option.map_eq_some_iff.mp hmap
      obtain rfl : seenAt = d.time := hseen
      simp [History.at]

theorem History.caused_by (h : History) {seen : Handled → Option Time}
    (hseen : ∀ d t, seen d = some t → d.delivery.timestamp = some t) :
    ∀ d ∈ h.handled, ∀ t, seen d = some t → t ≤ d.time :=
  fun d hd t ht => h.caused d hd t (hseen d t ht)

theorem timestamp_of_deployment (service : String) (d : Handled) (t : Time)
    (ht : d.deployment service = some t) : d.delivery.timestamp = some t := by
  unfold Handled.deployment at ht
  split at ht
  · split at ht
    · rw [‹d.delivery = _›]
      exact ht
    · cases ht
  · cases ht

theorem timestamp_of_signal (service : String) (d : Handled) (t : Time)
    (ht : d.signal service = some t) : d.delivery.timestamp = some t := by
  unfold Handled.signal at ht
  split at ht
  · split at ht
    · rw [‹d.delivery = _›]
      exact ht
    · cases ht
  · cases ht

/--
Both corroborations are about what happened in their window, at all times from the
end of the history on.
-/
structure MeasuredFromEvents [Scalar K] (cfg : Decision.Config) (h : History) (w : World K)
    (service : String) : Prop where
  deployment : ∀ t, h.now ≤ t → SaysDeployed cfg h w service t →
    Within (Handled.deployment service) (minutes cfg.recentDeploymentWindowMinutes) h.handled t
  security : ∀ t, h.now ≤ t → SaysSignalled cfg h w service t →
    Within (Handled.signal service) (minutes cfg.securitySignalWindowMinutes) h.handled t

/--
Of both kinds, what the engine last handled for the service, if that is still in its
window, it handled no later than something of the kind happened.
-/
structure NothingLate (cfg : Decision.Config) (h : History) (service : String) : Prop where
  deployment : Prompt Handled.forgets (Handled.deployment service) Handled.time
    (minutes cfg.recentDeploymentWindowMinutes) h.now h.handled
  security : Prompt Handled.forgets (Handled.signal service) Handled.time
    (minutes cfg.securitySignalWindowMinutes) h.now h.handled

end

/--
**The windows are measured from what happened exactly when nothing came late.**

For every history of messages, delays, repetitions and restarts, and every service.
-/
theorem windows_iff [Scalar K] (cfg : Decision.Config) (h : History) (w : World K)
    (service : String) : MeasuredFromEvents cfg h w service ↔ NothingLate cfg h service := by
  have hdeployment := recent_iff Handled.forgets (minutes cfg.recentDeploymentWindowMinutes)
    (h.caused_by (timestamp_of_deployment service)) h.past
  have hsignal := recent_iff Handled.forgets (minutes cfg.securitySignalWindowMinutes)
    (h.caused_by (timestamp_of_signal service)) h.past
  constructor
  · intro hm
    refine ⟨hdeployment.mp fun t ht hrecent => ?_, hsignal.mp fun t ht hrecent => ?_⟩
    · exact hm.deployment t ht (saysDeployed_iff.mpr hrecent)
    · exact hm.security t ht (saysSignalled_iff.mpr hrecent)
  · intro hn
    refine ⟨fun t ht hsaid => ?_, fun t ht hsaid => ?_⟩
    · exact hdeployment.mpr hn.deployment t ht (saysDeployed_iff.mp hsaid)
    · exact hsignal.mpr hn.security t ht (saysSignalled_iff.mp hsaid)

namespace Scenario

/-- The messages for the events that exist, as a new watch stream brings them at a time. -/
def stream (existing : List CoreEvent) (time : Time) : List Handled :=
  existing.filterMap fun raw => (eventTimestamp raw).bind fun timestamp =>
    (lifecycleEvent raw).map fun m => ⟨time, .lifecycle timestamp m⟩

/-- The pod `web` was started at 0. The stream was opened then, and again half an hour later. -/
def rewatched : List Handled := stream [started web] (minutes 30) ++ stream [started web] 0

/-- The start of a pod, brought by two streams. -/
def restreamed : History where
  now := minutes 30
  handled := rewatched
  past := by decide
  caused := by decide

end Scenario

open Scenario in
/-- **Half an hour after its only start a pod counts as just deployed**; the window is 15 minutes. -/
theorem restream_counts_as_recent :
    SaysDeployed settings.decision restreamed (World.empty ℚ) "shop/web" (minutes 30)
      ∧ ¬ Within (Handled.deployment "shop/web")
        (minutes settings.decision.recentDeploymentWindowMinutes) restreamed.handled (minutes 30)
      ∧ ¬ MeasuredFromEvents settings.decision restreamed (World.empty ℚ) "shop/web" := by
  have hsaid : SaysDeployed settings.decision restreamed (World.empty ℚ) "shop/web" (minutes 30) :=
    saysDeployed_iff.mpr ⟨_, rfl, by decide⟩
  -- both deliveries are of the one start, at 0
  have hold : restreamed.handled.all fun d => d.deployment "shop/web" = some 0 := by decide
  have hnot : ¬ Within (Handled.deployment "shop/web")
      (minutes settings.decision.recentDeploymentWindowMinutes) restreamed.handled (minutes 30) := by
    intro h
    obtain ⟨d, hd, t, ht, _, hle⟩ := h
    have hzero := of_decide_eq_true (List.all_eq_true.mp hold d hd)
    obtain rfl : 0 = t := Option.some.inj (hzero.symm.trans ht)
    revert hle
    decide
  exact ⟨hsaid, hnot, fun hm => hnot (hm.deployment _ (le_refl _) hsaid)⟩

end Proof

end HyperTrace
