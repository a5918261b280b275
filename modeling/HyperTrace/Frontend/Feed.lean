import HyperTrace.Api.Anomalies
import HyperTrace.Effect.Machine
import HyperTrace.Frontend.Incidents
import HyperTrace.System

/-!
# A browser tab with the incident feed

The state of `Incidents.tsx` beside the running system. The feed is filled in two
ways that know nothing of each other: every ten seconds, and whenever the filter is
changed, a refresh asks the API for both lists, and an alert that comes over the
WebSocket is put in front of what is there. The two requests of a refresh are
answered one after the other, refreshes overlap, and a late one replaces what a
later one has brought.

An act is what happens in the tab from one await to the next. The notices and the
styles of the tab are left out.
-/

namespace HyperTrace.Frontend

open Api Effect

variable {K : Type}

/-- `RECENT_WINDOW` -/
def recentWindow : Nat := 50

/-- `ACTIONABLE_WINDOW` -/
def actionableWindow : Nat := 500

/-- What the tab takes for an anomaly. A message may lack its classification. -/
structure Anomaly (K : Type) where
  id : Uuid
  service : String
  score : K
  classification : Option AnomalyClassification
  evidence : Evidence K
  status : String
  createdAt : Time

/-- An entry of the answer of `api.anomalies`. -/
def Anomaly.ofOut (out : AnomalyOut K) : Anomaly K where
  id := out.id
  service := out.service
  score := out.score
  classification := some out.classification
  evidence := out.evidence
  status := out.status
  createdAt := out.createdAt

/-- `JSON.parse(e.data) as Anomaly` -/
def Anomaly.ofAlert (alert : AnomalyMessage K) : Anomaly K where
  id := alert.id
  service := alert.service
  score := alert.score
  classification := alert.classification
  evidence := alert.evidence
  status := alert.status
  createdAt := alert.createdAt

/-- A `Promise.all` under way, with what has been answered of it. -/
structure Refresh (K : Type) where
  limit : Nat
  anomalies : Option (List (Anomaly K))
  actions : Option (List ActionOut)

structure Incidents (K : Type) where
  anomalies : List (Anomaly K)
  actions : List ActionOut
  actionableOnly : Bool
  refreshes : List (Refresh K)
  /-- The clicks being answered, with the `actionableOnly` of the render they were made in. -/
  acts : List Bool

namespace Incidents

/-- `refresh`, as far as its await. -/
def refresh (onlyActionable : Bool) (s : Incidents K) : Incidents K :=
  { s with
    refreshes := s.refreshes ++
      [⟨if onlyActionable then actionableWindow else recentWindow, none, none⟩] }

/-- The component has been mounted: nothing is there, and the first refresh is started. -/
def init (K : Type) : Incidents K := refresh false ⟨[], [], false, [], []⟩

/-- The update that an alert makes, unless a refresh has already picked the anomaly up. -/
def prepend (alert : Anomaly K) (prev : List (Anomaly K)) : List (Anomaly K) :=
  if prev.any fun a => a.id = alert.id then prev else (alert :: prev).take actionableWindow

def onAlert (alert : Anomaly K) (s : Incidents K) : Incidents K :=
  { s with anomalies := prepend alert s.anomalies }

/-- `actionsByAnomaly.has` -/
def hasAction (actions : List ActionOut) (anomalyId : Uuid) : Bool :=
  actions.any fun a => a.anomalyId = some anomalyId

/-- The anomalies that are shown. -/
def visible (s : Incidents K) : List (Anomaly K) :=
  if s.actionableOnly then s.anomalies.filter fun a => hasAction s.actions a.id else s.anomalies

end Incidents

inductive FeedAct where
  /-- The interval has passed. -/
  | interval
  | setActionableOnly (value : Bool)
  /-- The API reads the anomalies for the `n`-th refresh. -/
  | anomalies (n : Nat) (tie : Nat → Nat)
  /-- And the actions. -/
  | actions (n : Nat) (tie : Nat → Nat)
  /-- Both answers of the `n`-th refresh are there. -/
  | resolve (n : Nat)
  /-- One of its requests has failed. -/
  | reject (n : Nat)
  /-- The `n`-th message that was published comes over the WebSocket. -/
  | alert (n : Nat)
  /-- A button is clicked. -/
  | act
  /-- The `n`-th click is answered, or was refused. -/
  | acted (n : Nat) (ok : Bool)

/-- The anomaly messages that were published, or that a service tried to publish. -/
def published (c : SysConfig K) : List (AnomalyMessage K) :=
  c.trace.filterMap fun e =>
    match e.op with
    | .basicPublish (.anomaly m) => some m
    | _ => none

namespace Incidents

/-- `none` for what cannot happen now. -/
def step (c : SysConfig K) (s : Incidents K) : FeedAct → Option (Incidents K)
  | .interval => some (s.refresh s.actionableOnly)
  | .setActionableOnly value =>
      -- the effect is run again only when the state has changed
      if value = s.actionableOnly then some s
      else some (refresh value { s with actionableOnly := value })
  | .anomalies n tie =>
      match s.refreshes[n]? with
      | some ⟨limit, none, actions⟩ =>
          let answer := (listAnomalies limit none tie c.world.anomalies).map Anomaly.ofOut
          some { s with refreshes := s.refreshes.set n ⟨limit, some answer, actions⟩ }
      | _ => none
  | .actions n tie =>
      match s.refreshes[n]? with
      | some ⟨limit, anomalies, none⟩ =>
          let answer := listActions actionsWindow tie c.world.actionsLog
          some { s with refreshes := s.refreshes.set n ⟨limit, anomalies, some answer⟩ }
      | _ => none
  | .resolve n =>
      match s.refreshes[n]? with
      | some ⟨_, some anomalies, some actions⟩ =>
          some { s with
            anomalies := anomalies
            actions := actions
            refreshes := s.refreshes.eraseIdx n }
      | _ => none
  | .reject n =>
      if n < s.refreshes.length then some { s with refreshes := s.refreshes.eraseIdx n } else none
  | .alert n => (published c)[n]?.map fun alert => s.onAlert (.ofAlert alert)
  | .act => some { s with acts := s.acts ++ [s.actionableOnly] }
  | .acted n ok =>
      match s.acts[n]? with
      | some actionableOnly =>
          let s := { s with acts := s.acts.eraseIdx n }
          -- a call that was refused throws before it comes to the refresh
          some (if ok then s.refresh actionableOnly else s)
      | none => none

end Incidents

/-- The system, and a tab that shows it. -/
structure Tab (K : Type) where
  system : SysConfig K
  incidents : Incidents K

inductive TabAct (K : Type) where
  | feed (a : FeedAct)
  /-- What the system does. -/
  | other (a : SysAct K)

variable [Scalar K]

def Tab.init (cfg : Settings) : Tab K where
  system := (HyperTrace.system cfg).init (World.empty K)
  incidents := .init K

def browse (cfg : Settings) : Machine (Tab K) (TabAct K)
  | s, .feed a => (s.incidents.step s.system a).map fun i => { s with incidents := i }
  | s, .other a => ((HyperTrace.system cfg).step s.system a).map fun c => { s with system := c }

end HyperTrace.Frontend
