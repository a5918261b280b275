import HyperTrace.Common.Messaging
import HyperTrace.Common.Publish
import HyperTrace.Proof.Consumer
import HyperTrace.Effect.Record

/-!
# Two attempts, and never a channel of another connection

`publish` is run against a broker that fails in any of its calls with an `AMQPError`
or an `OSError`, on a client that earlier runs have left behind. Whether a connection
reports itself open or closed is taken to say nothing, and closing one may raise
whatever it likes.

The connection and the channel are two attributes, assigned at different times with a
call between them that may fail. `held` reads off the calls made so far which
connection is in hand and what was opened on it; the invariant between two calls of
`publish` is that the client has the two together or none of them. Inside an attempt
only the connection has to agree, which is what `_discard_connection` needs.
-/

namespace HyperTrace.Rabbit

open Effect

variable {Body V : Type}

/-! ## What a handler sees -/

/-- Two attempts, the second one only after the first failed on a dead connection. -/
def retry {m : Type → Type} [Monad m] [MonadExceptOf Err m] (once : m Unit) : m Unit := do
  try
    once
  catch e =>
    if e = .amqp then once else throw e

theorem handler_publish_eq_retry {K : Type} (p : Payload K) :
    HyperTrace.publish p = retry (HyperTrace.call (.basicPublish p)) :=
  rfl

/-- One attempt, which gives the connection up where it failed. -/
def attemptOnce (url : String) (write : Channel → Write Body) : PublisherMethod Body V Unit := do
  try
    writeOnce url write
  catch e =>
    if e = .amqp then
      discardConnection.inl
    throw e

/-- However it goes, it ends with the attributes reset. -/
theorem discardConnection_eq (Body V : Type) (client : Client) :
    ∃ p : Prog (Rabbit.Op Body V) Rabbit.Op.Res Err (Except Err Unit × Client),
      discardConnection client = p.bind fun _ => .ret (.ok (), Client.new) := by
  refine ⟨_, (Prog.bind_assoc _ _ _).trans (congrArg _ (funext fun r => ?_))⟩
  obtain ⟨r, s⟩ := r
  cases r <;> rfl

theorem discardConnection_bind (Body V : Type) (client : Client) :
    ∃ p : Prog (PublisherOp Body V) PublisherRes Err (Except Err Unit × Client),
      ∀ {α : Type} (f : Unit → PublisherMethod Body V α),
        (discardConnection.inl >>= f) client = p.bind fun _ => f () Client.new := by
  obtain ⟨p, hp⟩ := discardConnection_eq Body V client
  refine ⟨p.inl, fun f => ?_⟩
  have hinl : (discardConnection.inl : PublisherMethod Body V Unit) client
      = p.inl.bind fun _ => .ret (.ok (), Client.new) := by
    rw [Method.inl, hp, Prog.inl_bind]
    rfl
  exact (congrArg (Prog.bind · _) hinl).trans (Prog.bind_assoc _ _ _)

/-- An attempt that failed on the connection is the last one, or is followed by the others. -/
theorem attempts_cons (url : String) (write : Channel → Write Body) (n : Nat) (rest : List Nat) :
    (attempts url write (n :: rest) : PublisherMethod Body V Unit)
      = tryCatch (attemptOnce url write) fun e =>
        if e = .amqp ∧ n ≠ 2 then attempts url write rest else throw e := by
  funext client
  refine (Prog.bind_assoc (Prog.bind (writeOnce url write client) _) _ _).trans ?_
  refine (Prog.bind_assoc (writeOnce url write client) _ _).trans ?_
  refine Eq.trans ?_ (Prog.bind_assoc (writeOnce url write client) _ _).symm
  -- up to the end of the `try` block the two are the same program
  refine congrArg (Prog.bind _) (funext fun r => ?_)
  obtain ⟨r, s⟩ := r
  cases r with
  | ok _ => rfl
  | error e =>
      obtain ⟨p, hp⟩ := discardConnection_bind Body V s
      cases e with
      | amqp =>
          -- and up to the end of `_discard_connection`
          refine (congrArg (Prog.bind · _) (hp _)).trans ?_
          refine Eq.trans ?_ (congrArg (Prog.bind · _) (hp fun _ => throw .amqp)).symm
          refine (Prog.bind_assoc _ _ _).trans (Eq.trans ?_ (Prog.bind_assoc _ _ _).symm)
          refine congrArg (Prog.bind _) (funext fun _ => ?_)
          show _ = (if Err.amqp = Err.amqp ∧ n ≠ 2 then attempts url write rest
            else throw Err.amqp) Client.new
          by_cases hn : n = 2
          · rw [if_pos hn, if_neg (by simp [hn])]
            rfl
          · rw [if_neg hn, if_pos ⟨rfl, hn⟩]
            rfl
      | _ => rfl

theorem attempts_eq_retry (url : String) (write : Channel → Write Body) :
    (attempts url write [1, 2] : PublisherMethod Body V Unit) = retry (attemptOnce url write) := by
  have hlast : (attempts url write [2] : PublisherMethod Body V Unit) = attemptOnce url write := by
    rw [attempts_cons]
    simp only [ne_eq, not_true_eq_false, and_false, if_false]
    exact Method.tryCatch_throw _
  rw [attempts_cons, hlast]
  simp only [ne_eq, OfNat.one_ne_ofNat, not_false_eq_true, and_true]
  rfl

/-- **The two attempts of a handler's `publish`**: what is one call there is one attempt here. -/
theorem publish_eq_retry {dumps : V → Except Err Body} {payload : V} {body : Body}
    (url routingKey : String) (hbody : dumps payload = .ok body) :
    publish dumps url routingKey payload = retry (attemptOnce url fun ch =>
      ⟨ch, exchangeName, routingKey, body, ⟨"application/json", 2⟩⟩) := by
  rw [publish, hbody]
  exact attempts_eq_retry url _

/-! ## What is in hand -/

abbrev PublisherCall (Body V : Type) := Call (PublisherOp Body V) PublisherRes Err

def isWrite (c : PublisherCall Body V) : Bool :=
  match c.op with
  | .inl _ => false
  | .inr _ => true

/-- A write that succeeded. -/
def isWritten (c : PublisherCall Body V) : Bool := isWrite c && c.isOk

/-- A connection in hand, with the channels opened on it. -/
structure Holding where
  connection : Connection
  channels : List Channel

/--
What is in hand after one more call: connecting replaces it, and `_discard_connection`,
the only one to ask whether a connection is open, drops it.
-/
def holdAfter (holding : Option Holding) : PublisherCall Body V → Option Holding
  | ⟨.inl (.blockingConnection _), .ok connection⟩ => some ⟨connection, []⟩
  | ⟨.inl (.isOpen _), _⟩ => none
  | ⟨.inl (.channel connection), .ok ch⟩ => holding.map fun hold =>
      if hold.connection = connection then ⟨connection, ch :: hold.channels⟩ else hold
  | _ => holding

/-- What is in hand after a history, newest call first. -/
def held : List (PublisherCall Body V) → Option Holding
  | [] => none
  | c :: h => holdAfter (held h) c

/-- The connection is the one in hand, and the channel was opened on it. -/
def OpenedOn (h : List (PublisherCall Body V)) (connection : Connection) (ch : Channel) : Prop :=
  ∃ channels, held h = some ⟨connection, channels⟩ ∧ ch ∈ channels

/--
How a call may end: with the error of a lost connection or of the socket where it fails,
except that closing a connection may raise anything.
-/
def endsIn : (o : PublisherOp Body V) → Except Err (PublisherRes o) → Prop
  | .inl (.isOpen _), _ => True
  | .inl (.close _), _ => True
  | _, r => ∀ e, r = .error e → e = .amqp

/-- A write goes through a channel of the connection in hand. -/
def publishing : Discipline (PublisherOp Body V) PublisherRes Err where
  may h
    | .inl _ => True
    | .inr write => ∃ connection, OpenedOn h connection write.ch
  gives _ := endsIn

/-- Between two calls of `publish` the attributes belong together. -/
inductive Paired (h : List (PublisherCall Body V)) : Client → Prop where
  | new : held h = none → Paired h Client.new
  | ready {connection : Connection} {ch : Channel} :
      OpenedOn h connection ch → Paired h ⟨some connection, some ch⟩

/-- The attribute `_connection` is the connection in hand. -/
def Agrees (h : List (PublisherCall Body V)) (client : Client) : Prop :=
  client.connection = (held h).map Holding.connection

/-- `_ensure_channel` may return the channel. -/
def Ready (h : List (PublisherCall Body V)) (client : Client) (ch : Channel) : Prop :=
  ∃ connection, client = ⟨some connection, some ch⟩ ∧ OpenedOn h connection ch

/-- The broker failed, whatever the attribute `_channel` is. -/
def Lost (h : List (PublisherCall Body V)) (e : Err) (client : Client) : Prop :=
  e = .amqp ∧ Agrees h client

section Methods

variable {h : List (PublisherCall Body V)} {t : List (RabbitCall Body V)} {client : Client}

theorem Paired.agrees (hp : Paired h client) : Agrees h client := by
  cases hp with
  | new hnone => rw [Agrees, hnone]; rfl
  | ready hopen =>
      obtain ⟨channels, hheld, -⟩ := hopen
      rw [Agrees, hheld]
      rfl

theorem Paired.isReady {connection : Connection} (hp : Paired h client)
    (hcon : client.connection = some connection) : ∃ ch, Ready h client ch := by
  cases hp with
  | new _ => cases hcon
  | ready hopen => exact ⟨_, _, rfl, hopen⟩

/-- An error of the broker that changes nothing in hand. -/
theorem Agrees.lost {h' : List (PublisherCall Body V)} {e : Err} (ha : Agrees h client)
    (hheld : held h' = held h) (he : e = .amqp) : Lost h' e client := by
  refine ⟨he, ?_⟩
  rw [Agrees, hheld]
  exact ha

theorem obeys_openChannel_inl (url : String) (ha : Agrees (t.map Call.inl ++ h) client) :
    Method.Obeys (publishing.left h)
      (Method.post (fun t _ s => ∃ ch, Ready (t.map Call.inl ++ h) s ch)
        fun t e s => Lost (t.map Call.inl ++ h) e s) t client (openChannel url) := by
  refine Method.Obeys.call (D := publishing.left h) (o := .blockingConnection url) trivial
    (fun connection _ => ?_) fun e hends => ha.lost rfl (hends e rfl)
  refine Method.obeys_modify_bind.mpr ?_
  refine Method.Obeys.call (D := publishing.left h) (o := .channel connection) trivial
    (fun ch _ => ?_) fun e hends => ⟨hends e rfl, rfl⟩
  refine Method.obeys_modify_bind.mpr ?_
  refine Method.Obeys.perform (D := publishing.left h) trivial fun r hends => ?_
  have hopen : OpenedOn ((⟨.exchangeDeclare ch exchangeName exchangeType true, r⟩
      :: ⟨.channel connection, .ok ch⟩ :: ⟨.blockingConnection url, .ok connection⟩ :: t).map
        Call.inl ++ h) connection ch := by
    refine ⟨[ch], ?_, List.mem_singleton.mpr rfl⟩
    exact congrArg some (if_pos rfl)
  cases r with
  | ok _ => exact ⟨ch, connection, rfl, hopen⟩
  | error e => exact ⟨hends e rfl, (Paired.ready hopen).agrees⟩

/-- A connection that reports itself open came with its channel. -/
theorem obeys_connectionClosed_inl (hp : Paired (t.map Call.inl ++ h) client) :
    Method.Obeys (publishing.left h)
      (Method.post
        (fun t closed s => Agrees (t.map Call.inl ++ h) s
          ∧ (closed = false → ∃ ch, Ready (t.map Call.inl ++ h) s ch))
        fun t e s => Lost (t.map Call.inl ++ h) e s) t client connectionClosed := by
  rw [connectionClosed, Method.obeys_get_bind]
  cases hcon : client.connection with
  | none => exact ⟨hp.agrees, fun hne => by cases hne⟩
  | some connection =>
      refine Method.Obeys.perform (D := publishing.left h) (o := .isClosed connection) trivial ?_
      intro r hends
      cases r with
      | ok closed => exact ⟨hp.agrees, fun _ => hp.isReady hcon⟩
      | error e => exact hp.agrees.lost rfl (hends e rfl)

theorem obeys_ensureChannel_inl (url : String) (hp : Paired (t.map Call.inl ++ h) client) :
    Method.Obeys (publishing.left h)
      (Method.post (fun t ch s => Ready (t.map Call.inl ++ h) s ch)
        fun t e s => Lost (t.map Call.inl ++ h) e s) t client (ensureChannel url) := by
  refine Method.Obeys.bind (obeys_connectionClosed_inl hp) ?_ fun t e s' hr => hr
  intro t closed s' hr
  obtain ⟨hagrees, hready⟩ := hr
  refine Method.Obeys.bind (R := Method.post (fun t _ s => ∃ ch, Ready (t.map Call.inl ++ h) s ch)
    fun t e s => Lost (t.map Call.inl ++ h) e s) ?_ ?_ fun t e s' hr => hr
  · cases closed with
    | true => exact obeys_openChannel_inl url hagrees
    | false => exact hready rfl
  · intro t _ s' hr
    obtain ⟨ch, connection, rfl, hopen⟩ := hr
    exact ⟨connection, rfl, hopen⟩

/-- Whatever closing the connection comes to, nothing is in hand afterwards. -/
theorem obeys_discardConnection_inl (ha : Agrees (t.map Call.inl ++ h) client) :
    Method.Obeys (publishing.left h)
      (fun t r s => r = .ok () ∧ s = Client.new ∧ held (t.map Call.inl ++ h) = none) t client
      discardConnection := by
  refine Method.Obeys.bind (R := fun t r _ => r = .ok () ∧ held (t.map Call.inl ++ h) = none)
    ?_ ?_ ?_
  · refine Method.Obeys.tryCatch (R := fun t _ _ => held (t.map Call.inl ++ h) = none) ?_ ?_ ?_
    · refine Method.obeys_get_bind.mpr ?_
      cases hcon : client.connection with
      | none =>
          rw [Agrees, hcon] at ha
          exact Option.map_eq_none_iff.mp ha.symm
      | some connection =>
          refine Method.Obeys.call (D := publishing.left h) (o := .isOpen connection) trivial
            (fun isOpen _ => ?_) fun e _ => rfl
          cases isOpen with
          | true =>
              exact Method.Obeys.perform (D := publishing.left h) (o := .close connection) trivial
                fun r _ => rfl
          | false => exact rfl
    · intro t _ s' hr
      exact ⟨rfl, hr⟩
    · intro t e s' hr
      exact ⟨rfl, hr⟩
  · intro t _ s' hr
    exact ⟨rfl, rfl, hr.2⟩
  · intro t e s' hr
    cases hr.1

/-- What was added to a history: at most so many writes, and how many of them succeeded. -/
structure Wrote (new : List (PublisherCall Body V)) (atMost succeeded : Nat) : Prop where
  writes : new.countP isWrite ≤ atMost
  written : new.countP isWritten = succeeded

theorem Wrote.append {new new' : List (PublisherCall Body V)} {n n' k k' : Nat}
    (hw : Wrote new n k) (hw' : Wrote new' n' k') : Wrote (new ++ new') (n + n') (k + k') where
  writes := by rw [List.countP_append]; exact Nat.add_le_add hw.writes hw'.writes
  written := by rw [List.countP_append, hw.written, hw'.written]

/-- The calls of `_ensure_channel` and `_discard_connection` write nothing. -/
theorem Wrote.inl (t : List (RabbitCall Body V)) :
    Wrote (t.map Call.inl : List (PublisherCall Body V)) 0 0 := by
  have hnone : ∀ c ∈ (t.map Call.inl : List (PublisherCall Body V)), isWrite c = false := by
    intro c hc
    obtain ⟨c', -, rfl⟩ := List.mem_map.mp hc
    rfl
  refine ⟨(List.countP_eq_zero.mpr fun c hc => ?_).le, List.countP_eq_zero.mpr fun c hc => ?_⟩
  · rw [hnone c hc]
    exact Bool.false_ne_true
  · rw [isWritten, hnone c hc]
    exact Bool.false_ne_true

theorem Wrote.ok (write : Write Body) :
    Wrote [(⟨.inr write, .ok ()⟩ : PublisherCall Body V)] 1 1 :=
  ⟨le_refl 1, rfl⟩

theorem Wrote.error (write : Write Body) (e : Err) :
    Wrote [(⟨.inr write, .error e⟩ : PublisherCall Body V)] 1 0 :=
  ⟨le_refl 1, rfl⟩

/-- What a `try` block that was started after `h` comes to. -/
def triedOnce (h t : List (PublisherCall Body V)) : Except Err Unit → Client → Prop
  | .ok _, s => ∃ new, t = new ++ h ∧ Wrote new 1 1 ∧ Paired t s
  | .error e, s => ∃ new, t = new ++ h ∧ Wrote new 1 0 ∧ Lost t e s

theorem obeys_writeOnce (url : String) (write : Channel → Write Body)
    (hch : ∀ ch, (write ch).ch = ch) (hp : Paired h client) :
    Method.Obeys publishing (triedOnce h) h client (writeOnce url write) := by
  refine Method.Obeys.bind (R := Method.post
    (fun t ch s => ∃ new : List (RabbitCall Body V), t = new.map Call.inl ++ h ∧ Ready t s ch)
    fun t e s => ∃ new : List (RabbitCall Body V), t = new.map Call.inl ++ h ∧ Lost t e s)
    (Method.obeys_inl.mpr ?_) ?_ ?_
  · refine (obeys_ensureChannel_inl (t := []) url hp).mono fun t r s hr => ?_
    cases r with
    | ok ch => exact ⟨t, rfl, hr⟩
    | error e => exact ⟨t, rfl, hr⟩
  · intro t ch s hr
    obtain ⟨new, rfl, connection, rfl, hopen⟩ := hr
    refine Method.Obeys.perform ⟨connection, (hch ch).symm ▸ hopen⟩ fun r hends => ?_
    cases r with
    | ok _ => exact ⟨_ :: _, rfl, (Wrote.ok _).append (Wrote.inl new), .ready hopen⟩
    | error e =>
        refine ⟨_ :: _, rfl, (Wrote.error _ e).append (Wrote.inl new), ?_⟩
        exact (Paired.ready hopen).agrees.lost rfl (hends e rfl)
  · intro t e s hr
    obtain ⟨new, rfl, hlost⟩ := hr
    exact ⟨_, rfl, ⟨(Wrote.inl new).writes.trans (Nat.zero_le 1), (Wrote.inl new).written⟩, hlost⟩

/-- After a failed `try` block the connection is dropped. -/
theorem obeys_discard {new : List (PublisherCall Body V)} (hw : Wrote new 1 0)
    (ha : Agrees (new ++ h) client) :
    Method.Obeys publishing
      (fun t r s => r = .ok () ∧ s = Client.new ∧ ∃ new, t = new ++ h ∧ Wrote new 1 0
        ∧ held t = none) (new ++ h) client discardConnection.inl := by
  refine Method.obeys_inl.mpr ?_
  refine (obeys_discardConnection_inl (t := []) ha).mono fun t r s hr => ?_
  obtain ⟨rfl, rfl, hnone⟩ := hr
  refine ⟨rfl, rfl, t.map Call.inl ++ new, (List.append_assoc _ _ _).symm, ?_, hnone⟩
  exact (Wrote.inl t).append hw

/-- What an attempt that was started after `h` comes to. -/
def attemptedOnce (h t : List (PublisherCall Body V)) : Except Err Unit → Client → Prop
  | .ok _, s => ∃ new, t = new ++ h ∧ Wrote new 1 1 ∧ Paired t s
  | .error e, s => ∃ new, t = new ++ h ∧ Wrote new 1 0 ∧ Paired t s ∧ e = .amqp ∧ s = Client.new

/-- **One attempt.** It wrote, or it left nothing in hand. -/
theorem obeys_attemptOnce (url : String) (write : Channel → Write Body)
    (hch : ∀ ch, (write ch).ch = ch) (hp : Paired h client) :
    Method.Obeys publishing (attemptedOnce h) h client (attemptOnce url write) := by
  refine Method.Obeys.tryCatch (obeys_writeOnce url write hch hp) (fun t _ s hr => hr) ?_
  intro t e s hr
  obtain ⟨new, rfl, hwrote, rfl, hagrees⟩ := hr
  rw [if_pos rfl]
  refine Method.Obeys.bind (obeys_discard hwrote hagrees) ?_ ?_
  · intro t _ s hr
    obtain ⟨-, rfl, new, rfl, hwrote, hnone⟩ := hr
    exact ⟨new, rfl, hwrote, .new hnone, rfl, rfl⟩
  · intro t e s hr
    cases hr.1

/-- How a `publish` that was started after `h` ends. -/
structure PublishEnds (h t : List (PublisherCall Body V)) (r : Except Err Unit) (client : Client) :
    Prop where
  paired : Paired t client
  wrote : ∃ new, t = new ++ h ∧ Wrote new 2 (if r.isOk then 1 else 0)
  dropped : r.isOk = false → client = Client.new

theorem obeys_publish {dumps : V → Except Err Body} {payload : V} {body : Body}
    (url routingKey : String) (hbody : dumps payload = .ok body) (hp : Paired h client) :
    Method.Obeys publishing (PublishEnds h) h client (publish dumps url routingKey payload) := by
  rw [publish_eq_retry url routingKey hbody]
  refine Method.Obeys.tryCatch (obeys_attemptOnce url _ (fun _ => rfl) hp) ?_ ?_
  · intro t _ s hr
    obtain ⟨new, rfl, hwrote, hpaired⟩ := hr
    refine ⟨hpaired, ⟨new, rfl, ?_⟩, fun hne => by cases hne⟩
    exact ⟨hwrote.writes.trans one_le_two, hwrote.written⟩
  · intro t e s hr
    obtain ⟨first, rfl, hfirst, hpaired, rfl, rfl⟩ := hr
    rw [if_pos rfl]
    refine (obeys_attemptOnce url _ (fun _ => rfl) hpaired).mono fun t r s hr => ?_
    cases r with
    | ok _ =>
        obtain ⟨new, rfl, hwrote, hpaired⟩ := hr
        refine ⟨hpaired, ⟨new ++ first, by rw [List.append_assoc], ?_⟩, fun hne => by cases hne⟩
        exact hwrote.append hfirst
    | error e =>
        obtain ⟨new, rfl, hwrote, hpaired, -, rfl⟩ := hr
        refine ⟨hpaired, ⟨new ++ first, by rw [List.append_assoc], ?_⟩, fun _ => rfl⟩
        exact hwrote.append hfirst

/-- A payload that is no JSON is refused before the client is touched. -/
theorem publish_unencodable {dumps : V → Except Err Body} {payload : V} {e : Err}
    (url routingKey : String) (hbody : dumps payload = .error e) :
    publish dumps url routingKey payload client = .ret (.error e, client) := by
  rw [publish, hbody]
  rfl

/-- Without a connection the first call is to connect. -/
theorem publish_reconnects {dumps : V → Except Err Body} {payload : V} {body : Body}
    (url routingKey : String) (hbody : dumps payload = .ok body) (hcon : client.connection = none) :
    ∃ k, publish dumps url routingKey payload client = .op (.inl (.blockingConnection url)) k := by
  obtain ⟨connection, channel⟩ := client
  cases hcon
  rw [publish, hbody]
  exact ⟨_, rfl⟩

end Methods

/-! ## Whole runs -/

/-- How each call would end if it were the next one. -/
abbrev Outcome (Body V : Type) : Type :=
  { f : (o : PublisherOp Body V) → Except Err (PublisherRes o) // ∀ o, endsIn o (f o) }

/-- The broker is nothing but how it lets calls end. -/
def answer (_ : Unit) (o : PublisherOp Body V) (x : Outcome Body V) :
    Except Err (PublisherRes o) × Unit :=
  (x.1 o, ())

abbrev PublisherRecord (Body V : Type) :=
  List (Made (PublisherOp Body V) PublisherRes Err Unit)

/-- A client that was used for publishing only, with the record of all calls that were made. -/
inductive Published (dumps : V → Except Err Body) (url : String) :
    PublisherRecord Body V → Client → Prop where
  | new : Published dumps url [] Client.new
  | publish {l : PublisherRecord Body V} {client client' : Client} {r : Except Err Unit}
      (routingKey : String) (payload : V) (outcomes : Nat → Outcome Body V) :
      Published dumps url l client →
      (publish dumps url routingKey payload client).run answer outcomes ()
        = (.ok (r, client'), ()) →
      Published dumps url ((publish dumps url routingKey payload client).made answer outcomes () l)
        client'

section Runs

variable {dumps : V → Except Err Body} {url : String} {l : PublisherRecord Body V}
variable {client : Client}

/-- What a method is shown to do, it does in every run. -/
theorem run_obeys {α : Type} {Q : List (PublisherCall Body V) → Except Err α → Client → Prop}
    {m : PublisherMethod Body V α} (hm : Method.Obeys publishing Q (told l) client m)
    (hl : Allowed publishing l) (outcomes : Nat → Outcome Body V) :
    ∃ r client', (m client).run answer outcomes () = (.ok (r, client'), ())
      ∧ Allowed publishing ((m client).made answer outcomes () l)
      ∧ Q (told ((m client).made answer outcomes () l)) r client' := by
  have hmade : Allowed publishing ((m client).made answer outcomes () l) ∧ _ :=
    Prog.Obeys.made hm hl (fun _ _ o x => x.2 o) outcomes
  obtain ⟨hallowed, hq⟩ := hmade
  cases hrun : ((m client).run answer outcomes ()).1 with
  | ok out =>
      rw [hrun] at hq
      exact ⟨out.1, out.2, Prod.ext hrun rfl, hallowed, hq⟩
  | error e =>
      rw [hrun] at hq
      exact hq.elim

/-- **Between two calls of `publish`** the client has a connection with its channel, or neither. -/
theorem Published.invariant (hc : Published dumps url l client) :
    Paired (told l) client ∧ Allowed publishing l := by
  induction hc with
  | new => exact ⟨.new rfl, fun e pre he => by simp at he⟩
  | @publish l client client' r routingKey payload outcomes _ hrun ih =>
      obtain ⟨hpaired, hallowed⟩ := ih
      cases hbody : dumps payload with
      | ok body =>
          obtain ⟨r', client'', hrun', hallowed', hends⟩ :=
            run_obeys (obeys_publish url routingKey hbody hpaired) hallowed outcomes
          rw [hrun] at hrun'
          cases hrun'
          exact ⟨hends.paired, hallowed'⟩
      | error e =>
          rw [publish_unencodable url routingKey hbody] at hrun ⊢
          cases hrun
          exact ⟨hpaired, hallowed⟩

/--
**`publish` is a clean protocol of two attempts.** However the calls end: there are at
most two writes; it returns normally just when one of them succeeded, and then exactly
one did; when it raises, the client has neither connection nor channel, and whatever is
published next starts with connecting; and every write went through a channel that was
opened on the connection in hand, which before and after is the one the client has.
-/
theorem publish_two_attempts (hc : Published dumps url l client) (routingKey : String)
    {payload : V} {body : Body} (hbody : dumps payload = .ok body)
    (outcomes : Nat → Outcome Body V) :
    ∃ r client' new,
      (publish dumps url routingKey payload client).run answer outcomes () = (.ok (r, client'), ())
      ∧ told ((publish dumps url routingKey payload client).made answer outcomes () l)
        = new ++ told l
      ∧ new.countP isWrite ≤ 2
      ∧ (r = .ok () ↔ ∃ c ∈ new, isWritten c = true)
      ∧ (r = .ok () → new.countP isWritten = 1)
      ∧ (∀ e, r = .error e → client'.connection = none ∧ client'.channel = none
        ∧ ∀ routingKey' payload' body', dumps payload' = .ok body' →
          ∃ k, publish dumps url routingKey' payload' client'
            = .op (.inl (.blockingConnection url)) k)
      ∧ Agrees (told l) client ∧ Agrees (new ++ told l) client'
      ∧ ∀ write r s, ⟨.inr write, r⟩ :: s <:+ new ++ told l →
        ∃ connection, OpenedOn s connection write.ch := by
  obtain ⟨hpaired, hallowed⟩ := hc.invariant
  obtain ⟨r, client', hrun, hallowed', hends⟩ :=
    run_obeys (obeys_publish url routingKey hbody hpaired) hallowed outcomes
  obtain ⟨new, hnew, hwrites, hwritten⟩ := hends.wrote
  refine ⟨r, client', new, hrun, hnew, hwrites, ?_, ?_, ?_, hpaired.agrees, ?_, ?_⟩
  · rw [← List.countP_pos_iff, hwritten]
    cases r with
    | ok _ => exact iff_of_true rfl Nat.one_pos
    | error e => exact iff_of_false (fun hne => by cases hne) (Nat.lt_irrefl 0)
  · intro hok
    rw [hwritten, hok]
    rfl
  · intro e herr
    rw [hends.dropped (by rw [herr]; rfl)]
    exact ⟨rfl, rfl, fun key payload' body' hbody' => publish_reconnects url key hbody' rfl⟩
  · rw [← hnew]
    exact hends.paired.agrees
  · intro write r' s hs
    rw [← hnew] at hs
    obtain ⟨after, hafter⟩ := hs
    obtain ⟨made, pre, hpre, hcall, rfl⟩ := told_split hafter.symm
    have hmay := hallowed' made pre hpre
    have hop : made.op = .inr write := congrArg Call.op hcall
    rw [hop] at hmay
    exact hmay

end Runs

/-- A connection that says it is open, can be written to or not, and cannot be closed. -/
def endOf (alive : Bool) : (o : PublisherOp Nat Nat) → Except Err (PublisherRes o)
  | .inl (.isClosed _) => .ok false
  | .inl (.isOpen _) => .ok true
  | .inl (.close _) => .error .other
  | .inl (.blockingConnection _) => .ok (8 : Nat)
  | .inl (.channel _) => .ok (9 : Nat)
  | .inl (.exchangeDeclare _ _ _ _) => .ok ()
  | .inr _ => if alive then .ok () else .error .amqp
  | _ => .error .amqp

theorem endsIn_endOf (alive : Bool) (o : PublisherOp Nat Nat) : endsIn o (endOf alive o) := by
  cases o with
  | inr write =>
      intro e he
      cases alive <;> cases he
      rfl
  | inl o =>
      cases o with
      | isOpen _ | close _ => trivial
      | isClosed _ | blockingConnection _ | channel _ | exchangeDeclare _ _ _ _ =>
          intro e he
          cases he
      | _ =>
          intro e he
          cases he
          rfl

/-- The connection is dead at the second call, and every later one works. -/
def reaped (n : Nat) : Outcome Nat Nat := ⟨endOf (n ≠ 1), endsIn_endOf _⟩

/-- The calls of the publish before. -/
def firstPublish : PublisherRecord Nat Nat :=
  (publish .ok "" "k" 5 Client.new).made answer (fun _ => ⟨endOf true, endsIn_endOf _⟩) () []

theorem published_firstPublish : Published .ok "" firstPublish ⟨some 8, some 9⟩ :=
  .publish "k" 5 _ .new rfl

theorem publish_two_attempts_reaped :
    ∃ new, told ((publish .ok "" "k" 6 ⟨some 8, some 9⟩).made answer reaped () firstPublish)
        = new ++ told firstPublish
      ∧ new.countP isWrite ≤ 2 ∧ new.countP isWritten = 1 := by
  obtain ⟨r, client', new, hrun, hnew, hwrites, -, hone, -⟩ :=
    publish_two_attempts published_firstPublish "k" (rfl : (.ok 6 : Except Err Nat) = .ok 6) reaped
  have hok : r = .ok () := by
    cases hrun
    rfl
  exact ⟨new, hnew, hwrites, hone hok⟩

end HyperTrace.Rabbit
