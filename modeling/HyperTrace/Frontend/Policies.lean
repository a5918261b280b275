import HyperTrace.Api.Actions
import HyperTrace.Numeric.Numeral

/-!
# The policy form

What becomes of a filled-in policy form: `create` of `Policies.tsx` turns its texts into
a rule, `JSON.stringify` makes it the body of a request, `PolicyIn` is validated from
that body, and `create_policy` stores it. A JSON text is the value it encodes, so a
number that JSON cannot write is a `null` from there on.
-/

namespace HyperTrace

variable {K : Type} [Scalar K]

namespace Api

/-- The answer to a body that is not what the model declares. -/
def unprocessable (field : String) : Err := .http 422 field

/-- One field of a body: its default where the body has none. -/
def bodyField {α : Type} (kvs : List (String × Json K)) (key : String) (default : Except Err α)
    (read : Json K → Option α) : Except Err α :=
  match Json.get kvs key with
  | none => default
  | some v =>
    match read v with
    | some a => .ok a
    | none => .error (unprocessable key)

def readStr : Json K → Option String
  | .str s => some s
  | _ => none

def readDict : Json K → Option (List (String × Json K))
  | .obj kvs => some kvs
  | _ => none

def readAction : Json K → Option RemediationAction
  | .str s => (RemediationAction.parse s).toOption
  | _ => none

/-- An `int` as `pydantic` takes it, but for one written as a string, which the form never sends. -/
def readInt : Json K → Option ℤ
  | .int n => some n
  | .bool b => some (if b then 1 else 0)
  | .float x => if ((⌊x⌋ : ℤ) : K) = x ∧ ⌊x⌋.natAbs < 2 ^ 63 then some ⌊x⌋ else none
  | _ => none

/-- `PolicyIn`, validated from the body of a request. -/
def policyIn : Json K → Except Err (PolicyIn K)
  | .obj kvs => do
      let orgId ← bodyField kvs "org_id" (.ok "default") readStr
      let ruleDsl ← bodyField kvs "rule_dsl" (.ok []) readDict
      let scope ← bodyField kvs "scope" (.ok "*") readStr
      let action ← bodyField kvs "action" (.error (unprocessable "action")) readAction
      let priority ← bodyField kvs "priority" (.ok 0) readInt
      return { orgId, ruleDsl, scope, action, priority }
  | _ => .error (unprocessable "body")

/-- What a column of the type `INTEGER` can hold. -/
def fitsInteger (n : ℤ) : Bool := decide (-2147483648 ≤ n ∧ n ≤ 2147483647)

/-- `POST /api/v1/policies` -/
def postPolicy (user : User) (body : Json K) : Py K Reply := do
  -- a dependency, and as such resolved before the body is validated
  requireSre user
  match policyIn body with
  | .error e => throw e
  | .ok policy =>
      -- PostgreSQL refuses the row if the column cannot hold the priority
      if fitsInteger policy.priority then createPolicy user policy else throw .other

end Api

namespace Frontend

open Api Numeral

/-- `ACTIONS` -/
def formActions : List RemediationAction := [.alertOnly, .throttle, .freezeScaling]

/-- The state of the form. -/
structure Form where
  servicePrefix : String
  minCost : String
  action : RemediationAction
  /-- The `select` offers no other. -/
  offered : action ∈ formActions
  priority : String
  requiresApproval : Bool

/-- A JavaScript value that the form puts into a request. -/
inductive JsValue where
  | string (s : String)
  | number (x : Double)
  | boolean (b : Bool)

/--
`JSON.stringify`, with all digits of a number. A whole one below `1e21` has no point. From
`2 ^ 53` on JavaScript pads its shortest digits with zeros instead, which may give another
whole number with the same nearest double.
-/
def JsValue.stringify : JsValue → Json K
  | .string s => .str s
  | .boolean b => .bool b
  | .number (.finite q) => if q.den = 1 ∧ q.num.natAbs < 10 ^ 21 then .int q.num else .float q
  | .number _ => .null

/-- `rule_dsl` -/
def formRule (form : Form) : List (String × JsValue) :=
  (if trim form.servicePrefix ≠ [] then
      [("service_prefix", .string (String.ofList (trim form.servicePrefix)))] else [])
    ++ (if trim form.minCost ≠ [] then
      [("min_cost_per_hour", .number (number form.minCost))] else [])
    ++ if form.requiresApproval then [("requires_approval", .boolean true)] else []

/-- The rule as it is sent. -/
def sentRule (form : Form) : List (String × Json K) :=
  (formRule form).map fun kv => (kv.1, kv.2.stringify)

/-- `JSON.stringify` of what `api.createPolicy` is called with. -/
def policyBody (form : Form) : Json K :=
  .obj [("org_id", .str "default"), ("scope", .str "*"), ("action", .str form.action.value),
    ("priority", JsValue.stringify (.number (number form.priority))),
    ("rule_dsl", .obj (sentRule form))]

/-- `create`, by a user who is signed in; a response that is not `ok` is thrown as an error. -/
def create (user : User) (form : Form) : Py K Reply := postPolicy user (policyBody form)

end Frontend

end HyperTrace
