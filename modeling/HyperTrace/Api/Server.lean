import HyperTrace.Api.Users
import HyperTrace.Effect.Machine
import HyperTrace.System

/-!
# The API in front of the system

A write endpoint of the API is only ever reached through `Depends(require_sre)`,
which itself depends on `get_current_user`: a request comes with a token, and the
handler is started for the user the token names. Everything else that happens, the
rest of the system does.

The server also remembers what it would otherwise forget: who was given a token and
when, and which request was let in with which.
-/

namespace HyperTrace.Api

open Effect

variable {K Token Hash : Type}

/-- A request to one of the endpoints that write. -/
inductive Endpoint (K : Type) where
  | approveAction (anomalyId : Uuid)
  | rollbackAction (anomalyId : Uuid)
  | createPolicy (policy : PolicyIn K)
  | deletePolicy (policyId : Uuid)

/-- The handler, for the user the request comes from. -/
def Endpoint.start (user : User) : Endpoint K → Start K
  | approveAction anomalyId => .approve user anomalyId
  | rollbackAction anomalyId => .rollback user anomalyId
  | createPolicy policy => .createPolicy user policy
  | deletePolicy policyId => .deletePolicy user policyId

/-- A login that was answered with a token. -/
structure Session (Token : Type) where
  token : Token
  username : String
  password : String
  since : Time

/-- A request whose token named a user: the thread that handles it. -/
structure Grant (Token : Type) where
  tid : Nat
  token : Token
  time : Time

structure Server (K Token : Type) where
  system : SysConfig K
  sessions : List (Session Token)
  grants : List (Grant Token)

inductive ServerAct (K Token : Type) where
  | login (username password : String)
  | request (token : Token) (endpoint : Endpoint K)
  /-- What the rest of the system does. -/
  | other (a : SysAct K)

/-- The user a handler is started for. -/
def startUser : Start K → Option User
  | .approve user _ => some user
  | .rollback user _ => some user
  | .createPolicy user _ => some user
  | .deletePolicy user _ => some user
  | _ => none

/-- The handler of a request is started by the request and by nothing else. -/
def isRequest : SysAct K → Bool
  | .start x => (startUser x).isSome
  | _ => false

variable [Scalar K]

def init (cfg : Settings) : Server K Token where
  system := (HyperTrace.system cfg).init (World.empty K)
  sessions := []
  grants := []

def serve (cfg : Settings) (auth : Auth Token Hash) : Machine (Server K Token) (ServerAct K Token)
  | s, .login username password =>
      match login auth s.system.world.clock username password with
      | .error _ => some s
      | .ok token =>
          some { s with
            sessions := s.sessions ++ [⟨token, username, password, s.system.world.clock⟩] }
  | s, .request token endpoint =>
      match getCurrentUser auth s.system.world.clock token with
      | .error _ => some s
      | .ok user =>
          ((HyperTrace.system cfg).step s.system (.start (endpoint.start user))).map fun c =>
            { s with
              system := c
              grants := s.grants ++ [⟨s.system.threads.length, token, s.system.world.clock⟩] }
  | s, .other a =>
      if isRequest a then none
      else ((HyperTrace.system cfg).step s.system a).map fun c => { s with system := c }

/--
Nobody makes up a token that is accepted, or a message on the remediation queue: what
decodes under the secret was given out at some login.
-/
def honest (auth : Auth Token Hash) [DecidableEq Token] (s : Server K Token) :
    ServerAct K Token → Bool
  | .request token _ =>
      match auth.jose.decode token auth.jwtSecret s.system.world.clock with
      | .ok _ => s.sessions.any fun session => session.token = token
      | .error _ => true
  | .other (.env (.forge _)) => false
  | _ => true

end HyperTrace.Api
