import HyperTrace.Common.World
import Mathlib.Data.Prod.Lex
import Mathlib.Data.String.Basic

/-!
# What the dashboard reads

`get_dashboard_summary` of the BFF: of the rows of the last five minutes the latest
one of each service, what they add up to, and the ten largest of them. And
`list_actions`: the newest rows of the ledger.
-/

namespace HyperTrace.Api

structure SummaryEntry (K : Type) where
  service : String
  costPerHour : K

structure DashboardSummary (K : Type) where
  totalCostPerHour : K
  topServices : List (SummaryEntry K)

variable {K : Type}

/-- What `ORDER BY service, time DESC` compares, rows of equal key coming in the order of `tie`. -/
def summaryKey (tie : Nat → Nat) (row : CostEventRow K × Nat) : String ×ₗ ℤ ×ₗ ℕ :=
  toLex (row.1.service, toLex (-row.1.time, tie row.2))

def orderByService (tie : Nat → Nat) (rows : List (CostEventRow K)) : List (CostEventRow K) :=
  (rows.zipIdx.insertionSort fun a b => summaryKey tie a ≤ summaryKey tie b).map Prod.fst

/-- `dict.setdefault`, the dict being its items in the order they were inserted. -/
def setdefault (d : List (String × K)) (key : String) (value : K) : List (String × K) :=
  if d.any fun item => item.1 = key then d else d ++ [(key, value)]

/-- The first row seen per service. -/
def latestByService (rows : List (CostEventRow K)) : List (String × K) :=
  rows.foldl (fun d row => setdefault d row.service row.costPerHour) []

def getDashboardSummary [Scalar K] (now : Time) (tie : Nat → Nat)
    (costEvents : List (CostEventRow K)) : DashboardSummary K :=
  let since := now - minutes 5
  let rows := orderByService tie (costEvents.filter fun row => since ≤ row.time)
  let latest := latestByService rows
  -- `sorted(..., reverse=True)` keeps the order of equal entries
  let entries := latest.map fun item => (⟨item.1, item.2⟩ : SummaryEntry K)
  let topServices := (entries.insertionSort fun a b => b.costPerHour ≤ a.costPerHour).take 10
  { totalCostPerHour := (latest.map Prod.snd).sum, topServices }

structure ActionOut where
  id : Uuid
  anomalyId : Option Uuid
  parentActionId : Option Uuid
  actionType : String
  mode : String
  executedAt : Time
  result : ActionResult
  rollbackRef : Option Uuid
  deriving DecidableEq

/-- The fields of a row that are sent out. -/
def actionOut (row : ActionRow K) : ActionOut where
  id := row.id
  anomalyId := row.anomalyId
  parentActionId := row.parentActionId
  actionType := row.actionType
  mode := row.mode
  executedAt := row.executedAt
  result := row.result
  rollbackRef := row.rollbackRef

def listActions (limit : Nat) (tie : Nat → Nat) (actionsLog : List (ActionRow K)) :
    List ActionOut :=
  ((orderBy (fun row => - row.executedAt) tie actionsLog).take limit).map actionOut

end HyperTrace.Api
