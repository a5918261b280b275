import HyperTrace.Api.Server
import HyperTrace.Proof.Corroboration
import HyperTrace.Proof.Evidence

/-!
# Nothing is done without a login

The role of a user is only ever looked at in a token, and the token is only looked at
when a request comes in. What a handler does later, and what the executor does with
the request long after that, nobody asks about again. So that a patch goes back to
somebody who had the role and knew the password is a fact about the whole path: the
patch answers a request, which was published by a handler, which was started for a
token, which was given out at a login, at most `TOKEN_EXPIRE_HOURS` before.

The decision engine could publish a request of its own accord. It never does: no
score reaches the threshold.
-/

namespace HyperTrace.Proof

open HyperTrace Effect Api

variable {K Token Hash : Type} [Scalar K]

variable {cfg : Settings} {auth : Auth Token Hash}

/-! ## Handlers and their users -/

/-- The user a thread acts for. -/
def requester : Tag K → Option User
  | .approve user _ => some user
  | .rollback user _ => some user
  | .createPolicy user _ => some user
  | .deletePolicy user _ => some user
  | _ => none

omit [Scalar K] in
theorem requester_of_begin {w w' : World K} {n : Nat} {x : Start K} {tag : Tag K}
    (h : begin w n x = some (w', tag)) : requester tag = startUser x := by
  cases x with
  | anomaly k =>
      simp only [begin] at h
      split at h
      · cases h
      · obtain ⟨_, _, heq⟩ := Option.map_eq_some_iff.mp h
        cases heq
        rfl
  | remediation k =>
      simp only [begin] at h
      split at h
      · cases h
      · obtain ⟨_, _, heq⟩ := Option.map_eq_some_iff.mp h
        cases heq
        rfl
  | approve user a => cases h; rfl
  | rollback user a => cases h; rfl
  | createPolicy user policy => cases h; rfl
  | deletePolicy user id => cases h; rfl
  | _ =>
      obtain ⟨_, _, heq⟩ := Option.map_eq_some_iff.mp h
      cases heq
      rfl

/-- A thread was there before, under the same tag, or this act has started it. -/
theorem thread_of_step {c c' : SysConfig K} {a : SysAct K} (h : (system cfg).step c a = some c')
    {i : Nat} {t : Thread (Op K) Op.Res Err (Tag K) Reply} (ht : c'.threads[i]? = some t) :
    (∃ t₀, c.threads[i]? = some t₀ ∧ t₀.tag = t.tag)
      ∨ i = c.threads.length ∧ ∃ x, a = .start x ∧ requester t.tag = startUser x := by
  rcases System.step_cases h with ⟨x, w', tag, p, rfl, hst, rfl⟩ |
    ⟨j, x, tag, o, k, _, hj, rfl⟩ | ⟨v, _, rfl⟩
  · dsimp only at ht
    rw [List.getElem?_append] at ht
    split at ht
    · exact Or.inl ⟨t, ht, rfl⟩
    · rename_i hge
      have hi := (List.getElem?_eq_some_iff.mp ht).1
      have htag : t = ⟨tag, p⟩ := by simpa using List.mem_of_getElem? ht
      simp only [List.length_singleton] at hi
      refine Or.inr ⟨by omega, x, rfl, ?_⟩
      simp only [system, Option.map_eq_some_iff, Prod.exists, Prod.mk.injEq] at hst
      obtain ⟨w₁, tag₁, hb, rfl, rfl, rfl⟩ := hst
      rw [htag]
      exact requester_of_begin hb
  · dsimp only at ht
    by_cases hij : j = i
    · subst hij
      rw [List.getElem?_set_self (List.getElem?_eq_some_iff.mp hj).1] at ht
      exact Or.inl ⟨_, hj, by rw [← Option.some.inj ht]⟩
    · rw [List.getElem?_set_ne hij] at ht
      exact Or.inl ⟨t, ht, rfl⟩
  · exact Or.inl ⟨t, ht, rfl⟩

/-- No handler of a write request makes a call for a user without the role. -/
theorem program_gated (cfg : Settings) (tag : Tag K) :
    (program cfg tag).Obeys
      (anyAnswer fun _ _ => ∀ user, requester tag = some user → user.role = "sre")
      (fun _ _ => True) [] := by
  by_cases hsre : ∀ user, requester tag = some user → user.role = "sre"
  · have hob : (program cfg tag).Obeys
        (anyAnswer fun _ _ => ∀ user, requester tag = some user → user.role = "sre")
        (Ends cfg tag) [] :=
      (program_obeys cfg tag).weaken (fun _ _ _ => hsre) fun _ _ _ hg => hg
    exact hob.mono fun _ _ _ => trivial
  · push Not at hsre
    obtain ⟨user, huser, hrole⟩ := hsre
    -- `require_sre` raises before anything is called
    cases tag with
    | approve u a =>
        obtain rfl : u = user := Option.some.inj huser
        simp [program, Api.approveAction, requireSre, hrole]
    | rollback u a =>
        obtain rfl : u = user := Option.some.inj huser
        simp [program, Api.rollbackAction, requireSre, hrole]
    | createPolicy u p =>
        obtain rfl : u = user := Option.some.inj huser
        simp [program, Api.createPolicy, requireSre, hrole]
    | deletePolicy u id =>
        obtain rfl : u = user := Option.some.inj huser
        simp [program, Api.deletePolicy, requireSre, hrole]
    | _ => cases huser

/-! ## Tokens, and who was given them -/

/-- The request was let in with the token of this login, before it expired. -/
structure Covers (auth : Auth Token Hash) (x : Session Token) (g : Grant Token) (user : User) :
    Prop where
  token : x.token = g.token
  authenticated : authenticateUser auth x.username x.password = some user
  since : x.since ≤ g.time
  expires : seconds g.time ≤ seconds (x.since + hours auth.tokenExpireHours)

/-- What the server remembers is so. -/
structure Authentic (auth : Auth Token Hash) (s : Server K Token) : Prop where
  sessions : ∀ x ∈ s.sessions, ∃ user, authenticateUser auth x.username x.password = some user
    ∧ x.token = createAccessToken auth x.since user.username user.role
    ∧ x.since ≤ s.system.world.clock
  threads : ∀ i t user, s.system.threads[i]? = some t → requester t.tag = some user →
    ∃ g ∈ s.grants, g.tid = i ∧ ∃ x ∈ s.sessions, Covers auth x g user

theorem authentic_init : Authentic auth (Api.init cfg : Server K Token) where
  sessions x hx := by cases hx
  threads i t user ht := by simp [Api.init, System.init] at ht

variable [DecidableEq Token]

/-- **No act lets anybody in without a token of his own.** -/
theorem authentic_step (hj : auth.jose.Lawful) {s s' : Server K Token} {a : ServerAct K Token}
    (hok : honest auth s a = true) (hs : serve cfg auth s a = some s') (ih : Authentic auth s) :
    Authentic auth s' := by
  have hclock : ∀ {b : SysAct K} {c : SysConfig K}, (system cfg).step s.system b = some c →
      s.system.world.clock ≤ c.world.clock := fun hb => ((grows cfg).le_of_step hb).clock
  cases a with
  | login username password =>
      simp only [serve] at hs
      split at hs
      · obtain rfl := Option.some.inj hs
        exact ih
      · rename_i token hlogin
        obtain rfl := Option.some.inj hs
        unfold login at hlogin
        split at hlogin
        · cases hlogin
        · rename_i user huser
          obtain rfl := Except.ok.inj hlogin
          refine ⟨fun x hx => ?_, fun i t u ht hu => ?_⟩
          · rcases List.mem_append.mp hx with hx | hx
            · exact ih.sessions x hx
            · obtain rfl := List.mem_singleton.mp hx
              exact ⟨user, huser, rfl, le_refl _⟩
          · obtain ⟨g, hg, hi, x, hx, hc⟩ := ih.threads i t u ht hu
            exact ⟨g, hg, hi, x, List.mem_append_left _ hx, hc⟩
  | request token endpoint =>
      simp only [serve] at hs
      split at hs
      · obtain rfl := Option.some.inj hs
        exact ih
      · rename_i user huser
        obtain ⟨c, hc, rfl⟩ := Option.map_eq_some_iff.mp hs
        -- the token decodes, so it was given out
        have hmem : ∃ x ∈ s.sessions, x.token = token := by
          simp only [honest] at hok
          unfold getCurrentUser at huser
          cases hd : auth.jose.decode token auth.jwtSecret s.system.world.clock with
          | error e =>
              rw [hd] at huser
              cases huser
          | ok payload =>
              rw [hd] at hok
              simpa using hok
        obtain ⟨x, hx, rfl⟩ := hmem
        obtain ⟨u, hu, htoken, hsince⟩ := ih.sessions x hx
        rw [htoken, getCurrentUser_createAccessToken hj] at huser
        split at huser
        · rename_i hle
          obtain rfl := Except.ok.inj huser
          refine ⟨fun y hy => ?_, fun i t v ht hv => ?_⟩
          · obtain ⟨v, hv, hvt, hvs⟩ := ih.sessions y hy
            exact ⟨v, hv, hvt, hvs.trans (hclock hc)⟩
          · rcases thread_of_step hc ht with ⟨t₀, ht₀, htag⟩ | ⟨rfl, y, hstart, hreq⟩
            · obtain ⟨g, hg, hi, y, hy, hcov⟩ := ih.threads i t₀ v ht₀ (htag ▸ hv)
              exact ⟨g, List.mem_append_left _ hg, hi, y, hy, hcov⟩
            · obtain rfl : endpoint.start u = y := Act.start.inj hstart
              obtain rfl : v = u := by
                rw [hv] at hreq
                cases endpoint <;> exact Option.some.inj hreq
              exact ⟨_, List.mem_append_right _ (List.mem_singleton_self _), rfl, x, hx, rfl, hu,
                hsince, hle⟩
        · cases huser
  | other b =>
      simp only [serve] at hs
      split at hs
      · cases hs
      · rename_i hb
        obtain ⟨c, hc, rfl⟩ := Option.map_eq_some_iff.mp hs
        refine ⟨fun y hy => ?_, fun i t v ht hv => ?_⟩
        · obtain ⟨v, hv, hvt, hvs⟩ := ih.sessions y hy
          exact ⟨v, hv, hvt, hvs.trans (hclock hc)⟩
        · rcases thread_of_step hc ht with ⟨t₀, ht₀, htag⟩ | ⟨rfl, y, rfl, hreq⟩
          · exact ih.threads i t₀ v ht₀ (htag ▸ hv)
          · rw [hv] at hreq
            simp [isRequest, ← hreq] at hb

/-! ## Whole runs of the server -/

variable {acts : List (ServerAct K Token)} {s : Server K Token}

/-- Behind the server the system runs as ever, and nobody puts a request on the queue. -/
theorem run_of_server
    (h : (serve cfg auth).Run (fun s a => honest auth s a) (Api.init cfg) acts s) :
    (system cfg).Run (fun c a => noForgery c a) (World.empty K) s.system := by
  refine h.keeps (I := fun _ s => (system cfg).Run (fun c a => noForgery c a) (World.empty K)
    s.system) .init ?_
  intro as s₁ s₂ a _ hok hs ih
  cases a with
  | login username password =>
      simp only [serve] at hs
      split at hs
      · obtain rfl := Option.some.inj hs
        exact ih
      · obtain rfl := Option.some.inj hs
        exact ih
  | request token endpoint =>
      simp only [serve] at hs
      split at hs
      · obtain rfl := Option.some.inj hs
        exact ih
      · obtain ⟨c, hc, rfl⟩ := Option.map_eq_some_iff.mp hs
        exact ih.tail rfl hc
  | other b =>
      simp only [serve] at hs
      split at hs
      · cases hs
      · obtain ⟨c, hc, rfl⟩ := Option.map_eq_some_iff.mp hs
        refine ih.tail ?_ hc
        cases b with
        | env v =>
            cases v with
            | forge m => cases hok
            | _ => rfl
        | _ => rfl

theorem authentic_reachable (hj : auth.jose.Lawful)
    (h : (serve cfg auth).Run (fun s a => honest auth s a) (Api.init cfg) acts s) :
    Authentic auth s :=
  h.keeps (I := fun _ s => Authentic auth s) authentic_init
    fun _ _ _ _ _ hok hs ih => authentic_step hj hok hs ih

/-- Behind what a handler does stands a login, and the user has the role. -/
theorem authenticated_of_event (hj : auth.jose.Lawful)
    (h : (serve cfg auth).Run (fun s a => honest auth s a) (Api.init cfg) acts s)
    {e : SysEvent K} (he : e ∈ s.system.trace) {user : User} (hu : requester e.tag = some user) :
    user.role = "sre" ∧ ∃ g ∈ s.grants, g.tid = e.tid ∧ ∃ x ∈ s.sessions, Covers auth x g user := by
  have hr := run_of_server h
  obtain ⟨front, pre, htr⟩ := List.append_of_mem he
  obtain ⟨t, ht, htag⟩ := hr.tag_of_mem he
  have hsre := may_of_programs (program_gated cfg) hr ⟨front, htr.symm⟩
  exact ⟨hsre user hu, (authentic_reachable hj h).threads e.tid t user ht (htag ▸ hu)⟩

/-- A login with the one password, as the one user who may write, that is not yet stale. -/
structure LoggedIn (auth : Auth Token Hash) (x : Session Token) (g : Grant Token) : Prop where
  token : x.token = g.token
  username : x.username = "sre"
  password : auth.checkpw x.password auth.devPasswordHash = true
  since : x.since ≤ g.time
  fresh : g.time < x.since + hours auth.tokenExpireHours + 1000000

/-- The expiry is in whole seconds, rounded down on both sides. -/
theorem lt_of_seconds_le {t u : ℤ} (h : seconds t ≤ seconds u) : t < u + 1000000 := by
  unfold seconds at h
  omega

omit [DecidableEq Token] [Scalar K] in
theorem loggedIn_of_covers {x : Session Token} {g : Grant Token} {user : User}
    (h : Covers auth x g user) (hrole : user.role = "sre") : LoggedIn auth x g := by
  obtain ⟨htoken, huser, hsince, hexp⟩ := h
  obtain ⟨hpw, _, hname, _⟩ := authenticateUser_some huser
  exact ⟨htoken, hname.symm.trans hrole, hpw, hsince, lt_of_seconds_le hexp⟩

/--
**Only somebody logged in gets a handler to do anything.**

Whatever a handler that writes to the ledger, the queue or the policies did, it did
for a request with a token from a login as `sre`, with the password, that had not
expired by then.
-/
theorem events_authenticated (hj : auth.jose.Lawful)
    (h : (serve cfg auth).Run (fun s a => honest auth s a) (Api.init cfg) acts s)
    {e : SysEvent K} (he : e ∈ s.system.trace) {user : User} (hu : requester e.tag = some user) :
    user.role = "sre" ∧ ∃ g ∈ s.grants, g.tid = e.tid ∧ ∃ x ∈ s.sessions, LoggedIn auth x g := by
  obtain ⟨hrole, g, hg, hi, x, hx, hc⟩ := authenticated_of_event hj h he hu
  exact ⟨hrole, g, hg, hi, x, hx, loggedIn_of_covers hc hrole⟩

/-- **A request on the queue was published by a handler, for a row it had written.** -/
theorem requester_of_published {P : SysConfig K → SysAct K → Prop} {c : SysConfig K}
    (h : (system cfg).Run P (World.empty K) c) {e : SysEvent K} {pre : List (SysEvent K)}
    (he : e :: pre <:+ c.trace) {m : RemediationMessage}
    (hop : e.op = .basicPublish (.remediation m)) :
    ∃ user, requester e.tag = some user ∧ ∃ D ∈ e.before.actionsLog, m.actionId = some D.id
      ∧ D.result = .dispatched ∧ ∃ ins ∈ c.trace, ins.tid = e.tid ∧ ins.op = .insertAction D := by
  have hcalls := calls_of_suffix h he
  rw [hop] at hcalls
  have hwritten : ∀ {row : ActionRow K},
      (⟨.insertAction row, .ok ()⟩ : SysCall K) ∈ hist pre e.tid →
      row ∈ e.before.actionsLog
        ∧ ∃ ins ∈ c.trace, ins.tid = e.tid ∧ ins.op = .insertAction row := by
    intro row hrow
    obtain ⟨ins, hins, hi, hcall⟩ := mem_hist.mp hrow
    exact ⟨(row_of_transcript h he hrow).1, ins,
      ((List.suffix_cons e pre).trans he).subset hins, hi, congrArg Call.op hcall⟩
  generalize htag : e.tag = tag at hcalls
  cases published_by hcalls with
  | decision hd hm hatt =>
      obtain ⟨_, ins, pre', hins, hitag, hiop⟩ :=
        row_of_transcript h he (hatt.mem (List.mem_cons_self ..))
      exact absurd rfl (never_autonomous h (hins.subset (List.mem_cons_self ..))
        (hitag.trans htag) hiop)
  | @approve user anomalyId h₀ t d id now happ hm hatt =>
      obtain ⟨hlog, hins⟩ := hwritten (hatt.mem (List.mem_cons_self ..))
      obtain ⟨p, service, _⟩ := happ
      exact ⟨user, rfl, _, hlog, by rw [hm]; rfl, rfl, hins⟩
  | @rollback user anomalyId h₀ t d id now hr hm hatt =>
      obtain ⟨hlog, hins⟩ := hwritten (hatt.mem (List.mem_cons_self ..))
      obtain ⟨row, _⟩ := hr
      exact ⟨user, rfl, _, hlog, by rw [hm]; rfl, rfl, hins⟩

/--
**Nothing in the cluster is touched but for somebody logged in.**

However requests, deliveries and failures interleave: a patch is for a `dispatched`
row that was in the ledger, and that row was written for a request that came with
a token from a login as `sre`, with the password, not expired when it came.
-/
theorem patch_by_sre (hj : auth.jose.Lawful)
    (h : (serve cfg auth).Run (fun s a => honest auth s a) (Api.init cfg) acts s)
    {e : SysEvent K} (he : e ∈ s.system.trace) (hpatch : isPatch e.op = true) :
    ∃ m, e.tag = .execute m ∧ ∃ D ∈ e.before.actionsLog, m.actionId = some D.id
      ∧ D.result = .dispatched
      ∧ ∃ ins ∈ s.system.trace, ins.op = .insertAction D
      ∧ ∃ g ∈ s.grants, g.tid = ins.tid ∧ ∃ x ∈ s.sessions, LoggedIn auth x g := by
  have hrun := run_of_server h
  obtain ⟨front, pre, htrace⟩ := List.append_of_mem he
  have hsuf : e :: pre <:+ s.system.trace := ⟨front, htrace.symm⟩
  obtain ⟨m, req, htag, _⟩ := patched_by hpatch (calls_of_suffix hrun hsuf)
  obtain ⟨c₀, _, _, hr, _, hw, htr, hth, _⟩ := hrun.origin hsuf
  rcases request_published (fun _ _ hp => hp) hr ((delivered_of_thread hr hth).1 m htag) with
    hm | ⟨e₁, pre₁, he₁, hop⟩
  · rcases hm with hm | hm <;> cases hm
  · obtain ⟨user, hu, D, hD, hid, hres, ins, hins, htid, hiop⟩ :=
      requester_of_published hr he₁ hop
    have hpre : c₀.trace <:+ s.system.trace := htr ▸ (List.suffix_cons e pre).trans hsuf
    have hmem : e₁ ∈ s.system.trace := hpre.subset (he₁.subset (List.mem_cons_self ..))
    obtain ⟨hrole, g, hg, hi, x, hx, hc⟩ := authenticated_of_event hj h hmem hu
    have hle := ((changes_of_suffix hr he₁).le).trans
      (hr.le_of_mem (grows cfg) (he₁.subset (List.mem_cons_self ..)))
    exact ⟨m, htag, D, hw ▸ hle.actionsLog.subset hD, hid, hres, ins, hpre.subset hins, hiop, g, hg,
      hi.trans htid.symm, x, hx, loggedIn_of_covers hc hrole⟩

/-! ## A server somebody logs in to -/

namespace Scenario

/-- Tokens that say what they were made of. -/
def jose : Jose (Claims × String) where
  encode claims secret := (claims, secret)
  decode token secret now :=
    if token.2 ≠ secret then .error .other
    else
      match token.1.exp with
      | none => .ok token.1
      | some exp =>
          if seconds exp < seconds now then .error .other
          else .ok { token.1 with exp := some (seconds exp * 1000000) }

theorem jose_lawful : jose.Lawful where
  accepts claims secret now exp hexp hle := by
    simp [jose, hexp, not_lt.mpr hle]
  expires claims secret now exp hexp hlt := by
    exact ⟨.other, by simp [jose, hexp, hlt]⟩

def devAuth : Auth (Claims × String) String where
  jose := jose
  checkpw password hash := password = hash
  devPasswordHash := "hypertrace-dev"
  jwtSecret := "dev-only-insecure-secret-change-me"
  tokenExpireHours := 8

/-- What the server is asked, where the system starts a handler. -/
def asked (token : Claims × String) : SysAct ℚ → ServerAct ℚ (Claims × String)
  | .start (.approve _ anomalyId) => .request token (.approveAction anomalyId)
  | .start (.rollback _ anomalyId) => .request token (.rollbackAction anomalyId)
  | .start (.createPolicy _ policy) => .request token (.createPolicy policy)
  | .start (.deletePolicy _ id) => .request token (.deletePolicy id)
  | a => .other a

/-- A login, and then everything with the token it gave. -/
def loggedIn : List (ServerAct ℚ (Claims × String)) :=
  .login "sre" "hypertrace-dev" ::
    throttled.map (asked (createAccessToken devAuth 0 "sre" "sre"))

theorem loggedIn_run :
    ∃ s, (serve settings devAuth).Run (fun s a => honest devAuth s a) (Api.init settings) loggedIn s
      ∧ (∃ e ∈ s.system.trace, isPatch e.op = true)
      ∧ ∃ e ∈ s.system.trace, requester e.tag = some sre := by
  have hexec : ((serve settings devAuth).exec (honest devAuth) (Api.init settings) loggedIn).any
      (fun s => (s.system.trace.any fun e => isPatch e.op)
        && s.system.trace.any fun e => requester e.tag = some sre) = true := by decide +kernel
  obtain ⟨s, hrun, hcheck⟩ := Machine.exists_run hexec
  simp only [Bool.and_eq_true, List.any_eq_true, decide_eq_true_eq] at hcheck
  exact ⟨s, hrun, hcheck⟩

end Scenario

open Scenario in
theorem events_authenticated_approved :
    ∃ (s : Server ℚ (Claims × String)), ∃ e ∈ s.system.trace, requester e.tag = some sre
      ∧ ∃ g ∈ s.grants, g.tid = e.tid ∧ ∃ x ∈ s.sessions, LoggedIn devAuth x g := by
  obtain ⟨s, hrun, _, e, he, hu⟩ := loggedIn_run
  obtain ⟨_, hg⟩ := events_authenticated jose_lawful hrun he hu
  exact ⟨s, e, he, hu, hg⟩

open Scenario in
theorem patch_by_sre_throttled :
    ∃ (s : Server ℚ (Claims × String)), ∃ e ∈ s.system.trace, isPatch e.op = true
      ∧ ∃ D ∈ e.before.actionsLog, D.result = .dispatched
      ∧ ∃ ins ∈ s.system.trace, ins.op = .insertAction D
      ∧ ∃ g ∈ s.grants, g.tid = ins.tid ∧ ∃ x ∈ s.sessions, LoggedIn devAuth x g := by
  obtain ⟨s, hrun, ⟨e, he, hpatch⟩, _⟩ := loggedIn_run
  obtain ⟨_, _, D, hD, _, hres, hins⟩ := patch_by_sre jose_lawful hrun he hpatch
  exact ⟨s, e, he, hpatch, D, hD, hres, hins⟩

end HyperTrace.Proof
