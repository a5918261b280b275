import HyperTrace.Effect.Polling
import HyperTrace.Text.Dict
import HyperTrace.Wire

/-!
# The traffic adapter

`main.py` of the traffic adapter: Prometheus is asked for the request rates, its answer is
read series by series, and each rate is published under `namespace/workload`. An exception
ends the poll where it stands.
-/

namespace HyperTrace.Adapter

open Effect Wire

variable {K : Type}

/-- Every call of the service. -/
inductive Op (K : Type) where
  /-- `time.monotonic()` -/
  | monotonic
  | sleep (d : ℤ)
  /-- `urllib.request.urlopen(url, timeout=10)`, for the body of the response. -/
  | urlopen
  /-- `datetime.now(timezone.utc)` -/
  | now
  /-- `mq.publish(ROUTING_KEY_TRAFFIC, ...)` -/
  | publish (sample : TrafficSample K)

/-- What each call returns. -/
def Op.Res : Op K → Type
  | .monotonic => ℤ
  | .urlopen => String
  | .now => Time
  | _ => Unit

abbrev AdapterMethod (K α : Type) := Method (Op K) Op.Res Err PUnit α

abbrev call (o : Op K) : AdapterMethod K o.Res := Method.perform o

def monotonic : AdapterMethod K ℤ := call .monotonic

/-- What numbers read as, and how values other than texts are displayed. -/
structure Builtins (K : Type) where
  json : JsonText.FloatText K
  /-- `float(text)`, nothing where it raises `ValueError`. -/
  float : String → Option K
  /-- `str(value)` -/
  str : Json K → String

/-- The elements a `for` loop goes through: a dict has its keys, a text its characters. -/
def elements : Json K → Except Err (List (Json K))
  | .arr xs => .ok xs
  | .obj kvs => .ok (kvs.map fun p => .str p.1)
  | .str s => .ok (s.toList.map fun c => .str (String.singleton c))
  | _ => .error .typeError

/-- `value[1]` -/
def second : Json K → Except Err (Json K)
  | .arr (_ :: x :: _) => .ok x
  | .str s =>
      match s.toList with
      | _ :: c :: _ => .ok (.str (String.singleton c))
      | _ => .error .other
  | .arr _ => .error .other
  | .obj _ => .error .other
  | _ => .error .typeError

section

variable [Scalar K]

variable (B : Builtins K)

/-- A value in an f-string. -/
def displayed : Json K → String
  | .str s => s
  | v => B.str v

/-- `float(value)` -/
def asFloat : Json K → Except Err K
  | .str s =>
      match B.float s with
      | some x => .ok x
      | none => .error .valueError
  | .int n => .ok n
  | .float x => .ok x
  | .bool b => .ok (if b then 1 else 0)
  | _ => .error .typeError

/-- The body of the loop over the series: nothing for one that lacks a label. -/
def readSeries (series : Json K) : Except Err (Option (String × K)) := do
  let metric ← series.subscript "metric"
  let ns ← find metric "namespace"
  let workload ← find metric "app"
  match ns.filter Json.truthy, workload.filter Json.truthy with
  | some ns, some workload => do
      let value ← series.subscript "value"
      let rps ← asFloat B (← second value)
      return some (displayed B ns ++ "/" ++ displayed B workload, rps)
  | _, _ => return none

/-- The loop over the series. -/
def addRates : List (Json K) → List (String × K) → Except Err (List (String × K))
  | [], rates => .ok rates
  | series :: rest, rates => do
      match ← readSeries B series with
      | some (service, rps) => addRates rest (Dict.set rates service rps)
      | none => addRates rest rates

def isSuccess : Option (Json K) → Bool
  | some (.str s) => s = "success"
  | _ => false

/-- `_fetch_rates`, of the body of the response. -/
def fetchRates (body : String) : Except Err (List (String × K)) := do
  match JsonText.loads B.json body with
  | none => throw .valueError
  | some payload => do
      if !isSuccess (← find payload "status") then
        throw .other
      let data ← Json.subscript payload "data"
      addRates B (← elements (← Json.subscript data "result")) []

/-- The loop over the rates. -/
def publishRates (now : Time) : List (String × K) → AdapterMethod K Unit
  | [] => pure ()
  | (service, rps) :: rates => do
      call (.publish ⟨now, service, rps⟩)
      publishRates now rates

def pollOnce : AdapterMethod K Unit := do
  let body ← call .urlopen
  let rates ← Method.ofExcept (fetchRates B body)
  let now ← call .now
  publishRates now rates

/-- A round of `main`, at an interval in microseconds. -/
def main (interval : ℤ) : Unit → AdapterMethod K (Round Unit Empty) :=
  poll monotonic (fun d => call (.sleep d)) interval (pollOnce B)

end

end HyperTrace.Adapter
