import HyperTrace.Api.Actions

/-!
# Who may ask the API

`users.py` and the authentication of `main.py`: two users with one password, and
access tokens that say who somebody is and until when. The tokens are JSON web
tokens of `jose`, the passwords are checked by `bcrypt`; neither library is part of
the repository, so both are parameters.
-/

namespace HyperTrace.Api

/-- `timedelta(hours=n)` -/
def hours (n : ℤ) : Time := n * 3600000000

/-- A time in whole seconds, as the claims of a token have it. -/
def seconds (t : Time) : ℤ := t / 1000000

/-- The payload of a token. A token from elsewhere may lack any claim. -/
structure Claims where
  sub : Option String
  role : Option String
  exp : Option Time
  deriving DecidableEq

/-- `jose.jwt`. Every exception of `decode` is a `JWTError`. -/
structure Jose (Token : Type) where
  encode : Claims → String → Token
  decode : Token → String → Time → Except Err Claims

/-- `config.py`, the libraries, and the password hash made at import. -/
structure Auth (Token Hash : Type) where
  jose : Jose Token
  checkpw : String → Hash → Bool
  devPasswordHash : Hash
  jwtSecret : String
  tokenExpireHours : ℤ

/-- An entry of `_USERS`. -/
structure UserEntry (Hash : Type) where
  username : String
  role : String
  passwordHash : Hash

variable {Token Hash : Type}

/-- `_USERS` -/
def users (devPasswordHash : Hash) : List (String × UserEntry Hash) :=
  [("sre", ⟨"sre", "sre", devPasswordHash⟩), ("finance", ⟨"finance", "finance", devPasswordHash⟩)]

def authenticateUser (auth : Auth Token Hash) (username password : String) : Option User :=
  match (users auth.devPasswordHash).find? fun item => item.1 = username with
  | none => none
  | some (_, user) =>
      if auth.checkpw password user.passwordHash then some ⟨user.username, user.role⟩ else none

def createAccessToken (auth : Auth Token Hash) (now : Time) (subject role : String) : Token :=
  auth.jose.encode
    { sub := some subject, role := some role, exp := some (now + hours auth.tokenExpireHours) }
    auth.jwtSecret

/-- `payload[key]` -/
def claim (key : String) : Option String → Except Err String
  | some value => .ok value
  | none => .error (.keyError key)

def getCurrentUser (auth : Auth Token Hash) (now : Time) (token : Token) : Except Err User :=
  match auth.jose.decode token auth.jwtSecret now with
  | .error _ => .error (.http 401 "Invalid token")
  | .ok payload => do
      let username ← claim "sub" payload.sub
      let role ← claim "role" payload.role
      return ⟨username, role⟩

def login (auth : Auth Token Hash) (now : Time) (username password : String) :
    Except Err Token :=
  match authenticateUser auth username password with
  | none => .error (.http 401 "Incorrect username or password")
  | some user => .ok (createAccessToken auth now user.username user.role)

/--
What `jose` documents of its own tokens: under the secret they were made with, and
until they expire, they give back their claims, the time in whole seconds.
-/
structure Jose.Lawful (jose : Jose Token) : Prop where
  accepts : ∀ claims secret now exp, claims.exp = some exp → seconds now ≤ seconds exp →
    jose.decode (jose.encode claims secret) secret now
      = .ok { claims with exp := some (seconds exp * 1000000) }
  expires : ∀ claims secret now exp, claims.exp = some exp → seconds exp < seconds now →
    ∃ e, jose.decode (jose.encode claims secret) secret now = .error e

variable {auth : Auth Token Hash}

theorem authenticateUser_some {username password : String} {user : User}
    (h : authenticateUser auth username password = some user) :
    auth.checkpw password auth.devPasswordHash = true ∧ user.username = username
      ∧ user.role = username ∧ (username = "sre" ∨ username = "finance") := by
  unfold authenticateUser at h
  split at h
  · cases h
  · rename_i key entry hfind
    have hmem := List.mem_of_find?_eq_some hfind
    have hkey := List.find?_some hfind
    simp only [decide_eq_true_eq] at hkey
    subst hkey
    -- each of the two entries has its key for a name and for a role
    simp only [users, List.mem_cons, Prod.mk.injEq, List.not_mem_nil, or_false] at hmem
    split at h
    · rename_i hpw
      obtain rfl := Option.some.inj h
      rcases hmem with ⟨rfl, rfl⟩ | ⟨rfl, rfl⟩
      · exact ⟨hpw, rfl, rfl, Or.inl rfl⟩
      · exact ⟨hpw, rfl, rfl, Or.inr rfl⟩
    · cases h

/-- **A token is good for the user it was made for, until it expires.** -/
theorem getCurrentUser_createAccessToken (hj : auth.jose.Lawful) {since now : Time} {user : User} :
    getCurrentUser auth now (createAccessToken auth since user.username user.role)
      = if seconds now ≤ seconds (since + hours auth.tokenExpireHours) then .ok user
        else .error (.http 401 "Invalid token") := by
  unfold getCurrentUser createAccessToken
  split_ifs with hle
  · rw [hj.accepts _ _ _ _ rfl hle]
    rfl
  · obtain ⟨e, he⟩ := hj.expires
      { sub := some user.username, role := some user.role,
        exp := some (since + hours auth.tokenExpireHours) } auth.jwtSecret now _ rfl
      (not_le.mp hle)
    rw [he]

end HyperTrace.Api
