import HyperTrace.Common.World

/-!
# The anomalies the API lists

`list_anomalies` of the BFF: the newest rows of the table, of one service if asked
for it. A request reads the table once, and what it answers is a copy.
-/

namespace HyperTrace.Api

variable {K : Type}

structure AnomalyOut (K : Type) where
  id : Uuid
  service : String
  score : K
  classification : AnomalyClassification
  evidence : Evidence K
  status : String
  createdAt : Time

/-- The fields of a row that are sent out. -/
def anomalyOut (row : AnomalyRow K) : AnomalyOut K where
  id := row.id
  service := row.service
  score := row.score
  classification := row.classification
  evidence := row.evidence
  status := row.status
  createdAt := row.createdAt

/-- `if service`: an empty text asks for nothing. -/
def ofService (service : Option String) (row : AnomalyRow K) : Bool :=
  match service with
  | none => true
  | some service => service = "" || row.service = service

def listAnomalies (limit : Nat) (service : Option String) (tie : Nat → Nat)
    (anomalies : List (AnomalyRow K)) : List (AnomalyOut K) :=
  ((orderBy (fun row => - row.createdAt) tie (anomalies.filter (ofService service))).take
    limit).map anomalyOut

end HyperTrace.Api
