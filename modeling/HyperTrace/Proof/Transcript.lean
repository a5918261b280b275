import HyperTrace.Proof.World

/-!
# Transcripts

A handler is determined by the answers it gets, so everything it does can be said
about its own transcript: the calls it has made so far with what came back,
newest first. For each handler the modules that follow give two relations. `May`
says what it may call next after which transcript, and `Ends` with which
transcript it ends and how. Neither needs an assumption about the other threads;
those are brought in later, where a transcript is found in the trace of a run.

This module has what the handlers share: the calls by which a service acts, and
the transcript of a publish.
-/

namespace HyperTrace

open Effect

variable {K : Type}

abbrev History (K : Type) := List (SysCall K)

/-- A call that is not the newest one is an older one. -/
theorem mem_of_mem_cons_ne {c d : SysCall K} {h : History K} (hc : c ∈ d :: h)
    (hne : c.op ≠ d.op) : c ∈ h := by
  rcases List.mem_cons.mp hc with rfl | hc
  · exact absurd rfl hne
  · exact hc

/--
The calls by which a handler acts on what the others see, or on what the detector
has learned.
-/
def acts : Op K → Bool
  | .saveProfile _ _ _ => true
  | .setTrafficZ _ _ => true
  | .insertAnomaly _ => true
  | .updateAnomaly _ _ _ => true
  | .insertAction _ => true
  | .basicPublish _ => true
  | .settle _ _ => true
  | .patchDeployment _ _ _ _ => true
  | .patchHpa _ _ _ => true
  | _ => false

/-- The calls to the API server of the cluster. -/
def isKubernetes : Op K → Bool
  | .readDeployment _ _ => true
  | .patchDeployment _ _ _ _ => true
  | .listHpas _ => true
  | .patchHpa _ _ _ => true
  | _ => false

/-- The calls to the broker. -/
def isBroker : Op K → Bool
  | .basicPublish _ => true
  | .settle _ _ => true
  | _ => false

def isInsert : Op K → Bool
  | .insertAction _ => true
  | _ => false

def isPublish : Op K → Bool
  | .basicPublish _ => true
  | _ => false

def isSettle : Op K → Bool
  | .settle _ _ => true
  | _ => false

theorem acts_of_isPatch {o : Op K} (ho : Proof.isPatch o = true) : acts o = true := by
  cases o <;> first | rfl | cases ho

/-- The two calls that stamp a row, or any others that only read, are none that acts. -/
theorem mem_of_stamped {c d d' : SysCall K} {h : History K} (hc : c ∈ d :: d' :: h)
    (hact : acts c.op = true) (hd : acts d.op = false) (hd' : acts d'.op = false) : c ∈ h := by
  refine mem_of_mem_cons_ne (mem_of_mem_cons_ne hc ?_) ?_
  · intro heq
    rw [heq, hd] at hact
    cases hact
  · intro heq
    rw [heq, hd'] at hact
    cases hact

/-- Nothing has been done yet. -/
def Idle (h : History K) : Prop := ∀ c ∈ h, acts c.op = false

theorem Idle.nil : Idle ([] : History K) := by
  intro c hc
  cases hc

theorem Idle.cons {c : SysCall K} {h : History K} (hc : acts c.op = false) (hh : Idle h) :
    Idle (c :: h) := by
  intro d hd
  rcases List.mem_cons.mp hd with rfl | hd
  · exact hc
  · exact hh d hd

theorem ne_insert {o : Op K} (ho : isInsert o = false) (row : ActionRow K) :
    o ≠ .insertAction row := by
  intro hop
  rw [hop] at ho
  cases ho

/-- Nothing has been written to the ledger yet. -/
def Unrecorded (h : History K) : Prop := ∀ c ∈ h, ∀ row, c.op ≠ .insertAction row

theorem Unrecorded.nil : Unrecorded ([] : History K) := by
  intro c hc
  cases hc

theorem Unrecorded.cons {c : SysCall K} {h : History K} (hc : ∀ row, c.op ≠ .insertAction row)
    (hh : Unrecorded h) : Unrecorded (c :: h) := by
  intro d hd
  rcases List.mem_cons.mp hd with rfl | hd
  · exact hc
  · exact hh d hd

/-- Any other call may follow. -/
theorem Unrecorded.skip {c : SysCall K} {h : History K} (hc : isInsert c.op = false)
    (hh : Unrecorded h) : Unrecorded (c :: h) :=
  .cons (ne_insert hc) hh

theorem Idle.unrecorded {h : History K} (hh : Idle h) : Unrecorded h := by
  intro c hc row hrow
  have := hh c hc
  rw [hrow] at this
  cases this

theorem all_not_insert {h : History K} (hh : Unrecorded h) :
    h.all (fun c => !isInsert c.op) = true := by
  rw [List.all_eq_true]
  intro c hc
  have hne := hh c hc
  cases hop : c.op with
  | insertAction row => exact absurd hop (hne row)
  | _ => rfl

/-- The delivery has not been settled yet. -/
def Unsettled (h : History K) : Prop := ∀ c ∈ h, isSettle c.op = false

theorem Idle.unsettled {h : History K} (hh : Idle h) : Unsettled h := by
  intro c hc
  have := hh c hc
  cases hop : c.op with
  | settle consumer ack => rw [hop] at this; cases this
  | _ => rfl

/-- No `dispatched` row has been written yet. -/
def Undispatched (h : History K) : Prop :=
  ∀ c ∈ h, ∀ row, c.op = .insertAction row → row.result = .dispatched → c.isOk = false

theorem Unrecorded.undispatched {h : History K} (hh : Unrecorded h) : Undispatched h :=
  fun c hc row hrow _ => absurd hrow (hh c hc row)

theorem Undispatched.cons {c : SysCall K} {h : History K}
    (hc : ∀ row, c.op = .insertAction row → row.result = .dispatched → c.isOk = false)
    (hh : Undispatched h) : Undispatched (c :: h) := by
  intro d hd
  rcases List.mem_cons.mp hd with rfl | hd
  · exact hc
  · exact hh d hd

/-- The calls that stay in the process. They do not fail. -/
def isLocal : Op K → Bool
  | .now => true
  | .uuid4 => true
  | .getTrafficZ _ => true
  | .setTrafficZ _ _ => true
  | .getRecentEvent _ => true
  | .setRecentEvent _ _ => true
  | .getRecentSecurity _ => true
  | .setRecentSecurity _ _ => true
  | _ => false

/-- A discipline that constrains calls, and expects any answer of those that leave the process. -/
def anyAnswer (may : History K → Op K → Prop) : Discipline (Op K) Op.Res Err :=
  ⟨may, fun _ o r => isLocal o = true → (⟨o, r⟩ : SysCall K).isOk = true⟩

@[simp] theorem anyAnswer_may (may : History K → Op K → Prop) : (anyAnswer may).may = may := rfl

section Rules

variable {α β : Type} {may : History K → Op K → Prop} {h : History K}

/-- The rule for a call after which the program goes on with whatever it was answered. -/
theorem obeys_call {o : Op K} {f : o.Res → Py K β} {Q : History K → Except Err β → Prop}
    (hmay : may h o) (hok : ∀ a, (f a).Obeys (anyAnswer may) Q (⟨o, .ok a⟩ :: h))
    (herr : ∀ e, Q (⟨o, .error e⟩ :: h) (.error e)) :
    (call o >>= f).Obeys (anyAnswer may) Q h :=
  Prog.Obeys.call hmay (fun a _ => hok a) fun e _ => herr e

/-- The rule for a call that does not fail. -/
theorem obeys_local {o : Op K} {f : o.Res → Py K β} {Q : History K → Except Err β → Prop}
    (ho : isLocal o = true) (hmay : may h o)
    (hok : ∀ a, (f a).Obeys (anyAnswer may) Q (⟨o, .ok a⟩ :: h)) :
    (call o >>= f).Obeys (anyAnswer may) Q h :=
  Prog.Obeys.call hmay (fun a _ => hok a) fun _ he => nomatch he ho

/-- The rule for a call at the end of a program. -/
theorem obeys_last {o : Op K} {Q : History K → Except Err o.Res → Prop} (hmay : may h o)
    (hok : ∀ r, Q (⟨o, r⟩ :: h) r) : (call o).Obeys (anyAnswer may) Q h :=
  Prog.obeys_perform.mpr ⟨hmay, fun r _ => hok r⟩

theorem obeys_lift {x : Except Err α} {f : α → Py K β} {Q : History K → Except Err β → Prop}
    (hok : ∀ a, x = .ok a → (f a).Obeys (anyAnswer may) Q h)
    (herr : ∀ e, x = .error e → Q h (.error e)) :
    (lift x >>= f).Obeys (anyAnswer may) Q h := by
  cases x with
  | ok a => exact hok a rfl
  | error e => exact herr e rfl

/-! ## Publishing -/

/-- A publish of `p`, begun after `h`, is about to make an attempt. -/
inductive Attempts (p : Payload K) (h : History K) : History K → Prop where
  | first : Attempts p h h
  | second : Attempts p h (⟨.basicPublish p, .error .amqp⟩ :: h)

/-- An attempt forgets nothing of what came before the publish. -/
theorem Attempts.mem {p : Payload K} {h t : History K} (ha : Attempts p h t) {c : SysCall K}
    (hc : c ∈ h) : c ∈ t := by
  cases ha with
  | first => exact hc
  | second => exact List.mem_cons_of_mem _ hc

/-- How a publish of `p`, begun after `h`, can end. -/
inductive Published (p : Payload K) (h : History K) : History K → Except Err Unit → Prop where
  | first : Published p h (⟨.basicPublish p, .ok ()⟩ :: h) (.ok ())
  | refused {e : Err} : e ≠ .amqp →
      Published p h (⟨.basicPublish p, .error e⟩ :: h) (.error e)
  | second (r : Except Err Unit) :
      Published p h (⟨.basicPublish p, r⟩ :: ⟨.basicPublish p, .error .amqp⟩ :: h) r

theorem publish_obeys {p : Payload K} (hmay : ∀ t, Attempts p h t → may t (.basicPublish p)) :
    (publish p).Obeys (anyAnswer may) (Published p h) h := by
  refine Prog.obeys_tryCatch.mpr (obeys_last (hmay _ .first) fun r => ?_)
  cases r with
  | ok a => exact .first
  | error e =>
      by_cases he : e = .amqp
      · subst he
        exact obeys_last (hmay _ .second) fun r => .second r
      · simp only [he, ↓reduceIte, Prog.throw_eq, Prog.obeys_raise]
        exact .refused he

/-! ## Deliveries -/

/-- How a handler's end is settled. -/
def acked (r : Except Err Unit) : Bool :=
  match r with
  | .ok _ => true
  | .error _ => false

/-- A delivery is settled according to how its handler ended. -/
theorem callback_obeys {consumer : Consumer} {p : Py K Unit}
    {R : History K → Except Err Unit → Prop} (hp : p.Obeys (anyAnswer may) R [])
    (hmay : ∀ t r, R t r → may t (.settle consumer (acked r))) :
    (callback consumer p).Obeys (anyAnswer may)
      (fun t _ => ∃ h r ack res, R h r ∧ t = ⟨.settle consumer ack, res⟩ :: h) [] := by
  unfold callback
  refine Prog.Obeys.bind (R := fun t r => ∃ r', R t r' ∧ r = .ok (acked r')) ?_ ?_ ?_
  · refine Prog.obeys_tryCatch.mpr (Prog.obeys_bind.mpr (hp.mono fun t r hr => ?_))
    cases r with
    | ok a => exact ⟨_, hr, rfl⟩
    | error e => exact ⟨_, hr, rfl⟩
  · intro t a hx
    obtain ⟨r, hr, ha⟩ := hx
    cases ha
    exact obeys_call (hmay _ _ hr) (fun a => ⟨_, _, _, _, hr, rfl⟩)
      fun e => ⟨_, _, _, _, hr, rfl⟩
  · intro t e hx
    obtain ⟨r, _, h⟩ := hx
    cases h

end Rules

end HyperTrace
