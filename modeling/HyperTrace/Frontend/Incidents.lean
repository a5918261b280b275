import HyperTrace.Api.Dashboard

/-!
# The incident feed

`Incidents.tsx`, as far as it decides which controls an incident gets: the actions
of the anomaly in the order of their times, the position of the latest one of each
of four results, and what their order says about the state the ledger is in.
-/

namespace HyperTrace.Frontend

open Api

/-- `api.actions(200)` -/
def actionsWindow : Nat := 200

/-- `Date.parse`: milliseconds, what is finer being cut off. -/
def dateParse (executedAt : Time) : ℤ := executedAt / 1000

/-- The entry of `actionsByAnomaly`, sorted; `Array.prototype.sort` is stable. -/
def related (actions : List ActionOut) (anomalyId : Uuid) : List ActionOut :=
  (actions.filter fun a => a.anomalyId = some anomalyId).insertionSort fun x y =>
    dateParse x.executedAt ≤ dateParse y.executedAt

/-- The position of the last element that satisfies the predicate, or -1. -/
def latest {α : Type} (related : List α) (predicate : α → Bool) : ℤ :=
  related.zipIdx.foldl (fun found r => if predicate r.1 then r.2 else found) (-1)

/-- The buttons an incident is shown with. -/
structure Controls where
  approve : Bool
  rollBack : Bool
  deriving DecidableEq

def controls (canAct : Bool) (related : List ActionOut) : Controls :=
  let executedAt := latest related fun r => r.result = .executed
  let rolledBackAt := latest related fun r => r.result = .rolledBack
  let pendingAt := latest related fun r => r.result = .pendingApproval
  let dispatchedAt := latest related fun r => r.result = .dispatched
  let hasExecuted := decide (0 ≤ executedAt ∧ rolledBackAt < executedAt)
  let isPending := decide (0 ≤ pendingAt ∧ dispatchedAt < pendingAt)
  { approve := canAct && isPending, rollBack := canAct && hasExecuted }

/-- The buttons of one anomaly of the feed, from what the API listed. -/
def incidentControls (canAct : Bool) (actions : List ActionOut) (anomalyId : Uuid) : Controls :=
  controls canAct (related actions anomalyId)

end HyperTrace.Frontend
