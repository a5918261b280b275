import HyperTrace.Common.Consume
import Mathlib.Data.List.TakeWhile

/-!
# A consumer thread neither dies nor acknowledges what it did not do

`consume` is run against a broker that answers every call as it likes or raises an
`AMQPError`, and a handler that raises whatever it likes. `protocol` writes down,
call by call, what the thread is allowed to do next: ack only right after the
handler returned, nack only right after decoding or the handler raised, connect
again only right after the sleep that is due. The invariant of the reconnect loop
ties `delay` to the number of attempts the history shows.
-/

namespace HyperTrace.Rabbit

open Effect

variable {Body V : Type}

abbrev RabbitCall (Body V : Type) := Call (Rabbit.Op Body V) Rabbit.Op.Res Err

/-- The calls that need the broker. -/
def needsBroker : Rabbit.Op Body V → Bool
  | .isClosed _ | .isOpen _ | .onMessage _ | .stopping | .sleep _ => false
  | _ => true

/-- The broker failed in this call. -/
def brokerFailed (c : RabbitCall Body V) : Bool := needsBroker c.op && !c.isOk

def isConnect : Rabbit.Op Body V → Bool
  | .blockingConnection _ => true
  | _ => false

def isSetUp : Rabbit.Op Body V → Bool
  | .basicConsume _ _ => true
  | _ => false

/-- How often, since the last successful set-up, a connection was attempted after a failure. -/
def reconnects : List (RabbitCall Body V) → Nat
  | [] => 0
  | c :: h =>
      if isSetUp c.op && c.isOk then 0
      else if isConnect c.op && h.any brokerFailed then reconnects h + 1
      else reconnects h

/-- The seconds to wait after `n` reconnects that led to nothing. -/
def backoff (n : Nat) : Nat := min (2 ^ n) 30

/-- No call of the present connection has failed. -/
def Healthy (h : List (RabbitCall Body V)) : Prop :=
  ∀ c ∈ h.takeWhile fun c => !isConnect c.op, brokerFailed c = false

/-- The delivery just taken from the channel, and what the thread has done with it since. -/
def decoded (loads : Body → Except Err V) (ch : Channel) (tag : Nat) (r : Except Err Unit)
    (h : List (RabbitCall Body V)) : Prop :=
  ∃ body message s, loads body = .ok message
    ∧ h = ⟨.onMessage message, r⟩ :: ⟨.nextDelivery ch, .ok (some ⟨tag, body⟩)⟩ :: s

def undecodable (loads : Body → Except Err V) (ch : Channel) (tag : Nat)
    (h : List (RabbitCall Body V)) : Prop :=
  ∃ body e s, loads body = .error e ∧ h = ⟨.nextDelivery ch, .ok (some ⟨tag, body⟩)⟩ :: s

/-- What a consumer thread may do next. -/
def mayCall (loads : Body → Except Err V) (h : List (RabbitCall Body V)) :
    Rabbit.Op Body V → Prop
  | .basicAck ch tag => decoded loads ch tag (.ok ()) h
  | .basicNack ch tag requeue => requeue = false
      ∧ (undecodable loads ch tag h ∨ ∃ e, decoded loads ch tag (.error e) h)
  | .blockingConnection _ => (∀ c ∈ h, brokerFailed c = false)
      ∨ ∃ s, h = ⟨.sleep (backoff (reconnects s)), .ok ()⟩ :: s
  | _ => True

/--
The broker fails with `AMQPError` or `OSError` only, and a connection none of whose
calls failed is not closed. The handler may raise anything.
-/
def answers (h : List (RabbitCall Body V)) : (o : Rabbit.Op Body V) → Except Err o.Res → Prop
  | .isClosed _, r => ∃ b, r = .ok b ∧ (b = true → (∀ c ∈ h, isConnect c.op = false) ∨ ¬ Healthy h)
  | .onMessage _, _ => True
  | .isOpen _, r => ∃ b, r = .ok b
  | .stopping, r => ∃ b, r = .ok b
  | .sleep _, r => r = .ok ()
  | _, r => ∀ e, r = .error e → e = .amqp

def protocol (loads : Body → Except Err V) : Discipline (Rabbit.Op Body V) Rabbit.Op.Res Err where
  may := mayCall loads
  gives := answers

/-! ## What a call does to the counts -/

section Counts

variable {c : RabbitCall Body V} {h : List (RabbitCall Body V)}

theorem reconnects_plain (hset : isSetUp c.op = false) (hcon : isConnect c.op = false) :
    reconnects (c :: h) = reconnects h := by
  simp [reconnects, hset, hcon]

theorem reconnects_failed (hcon : isConnect c.op = false) (hbad : brokerFailed c = true) :
    reconnects (c :: h) = reconnects h := by
  have hok : c.isOk = false := by
    simp only [brokerFailed, Bool.and_eq_true, Bool.not_eq_true'] at hbad
    exact hbad.2
  simp [reconnects, hok, hcon]

theorem reconnects_setUp (hset : isSetUp c.op = true) (hok : c.isOk = true) :
    reconnects (c :: h) = 0 := by
  simp [reconnects, hset, hok]

/-- A connection attempted after a failure is one more reconnect. -/
theorem reconnects_connect (hset : isSetUp c.op = false) (hcon : isConnect c.op = true)
    (hfail : ∃ x ∈ h, brokerFailed x = true) : reconnects (c :: h) = reconnects h + 1 := by
  have hany : h.any brokerFailed = true := by
    obtain ⟨x, hx, hbad⟩ := hfail
    exact List.any_eq_true.mpr ⟨x, hx, hbad⟩
  simp [reconnects, hset, hcon, hany]

theorem reconnects_of_no_failure (hh : ∀ x ∈ h, brokerFailed x = false) : reconnects h = 0 := by
  induction h with
  | nil => rfl
  | cons c h ih =>
      have htail : ∀ x ∈ h, brokerFailed x = false := fun x hx => hh x (List.mem_cons_of_mem _ hx)
      have hany : h.any brokerFailed = false := by
        rw [List.any_eq_false]
        intro x hx
        rw [htail x hx]
        exact Bool.false_ne_true
      simp [reconnects, hany, ih htail]

theorem Healthy.cons (hh : Healthy h) (hok : brokerFailed c = false) : Healthy (c :: h) := by
  intro x hx
  rw [List.takeWhile_cons] at hx
  split at hx
  · rcases List.mem_cons.mp hx with rfl | hx
    · exact hok
    · exact hh x hx
  · cases hx

theorem Healthy.connect (hcon : isConnect c.op = true) : Healthy (c :: h) := by
  intro x hx
  simp [hcon] at hx

theorem backoff_succ (n : Nat) : min (backoff n * 2) 30 = backoff (n + 1) := by
  have := pow_succ 2 n
  unfold backoff
  omega

end Counts

/-! ## The methods, one by one -/

/-- The connection works, and `delay` is what a failure now would cost. -/
structure Working (h : List (RabbitCall Body V)) (delay : Nat) : Prop where
  healthy : Healthy h
  due : delay = backoff (reconnects h)

/-- The exception on its way is that of the broker's failure just seen. -/
structure Broken (h : List (RabbitCall Body V)) (delay : Nat) (e : Err) : Prop where
  isAmqp : e = .amqp
  cause : ∃ c s, h = c :: s ∧ brokerFailed c = true
  due : delay = backoff (reconnects h)

/-- A method keeps the connection working, or the broker failed in its last call. -/
def worksOrBroken {α : Type} (delay : Nat) (P : Client → Prop) (t : List (RabbitCall Body V)) :
    Except Err α → Client → Prop
  | .ok _, client => Working t delay ∧ P client
  | .error e, _ => Broken t delay e

/-- Both attributes are assigned. -/
def Connected (client : Client) : Prop :=
  client.connection.isSome = true ∧ client.channel.isSome = true

section Methods

variable {loads : Body → Except Err V} {h : List (RabbitCall Body V)} {client : Client}
variable {delay : Nat} {P : Client → Prop}

theorem answers_ok {o : Rabbit.Op Body V} {a : o.Res} (hneeds : needsBroker o = true) :
    answers h o (.ok a) := by
  cases o with
  | isClosed _ | isOpen _ | onMessage _ | stopping | sleep _ => cases hneeds
  | _ => exact fun e he => by cases he

theorem amqp_of_answers {o : Rabbit.Op Body V} {e : Err} (hneeds : needsBroker o = true)
    (hr : answers h o (.error e)) : e = .amqp := by
  cases o with
  | isClosed _ | isOpen _ | onMessage _ | stopping | sleep _ => cases hneeds
  | _ => exact hr e rfl

theorem Working.cons (hw : Working h delay) {c : RabbitCall Body V} (hset : isSetUp c.op = false)
    (hcon : isConnect c.op = false) (hok : brokerFailed c = false) : Working (c :: h) delay where
  healthy := hw.healthy.cons hok
  due := by rw [reconnects_plain hset hcon]; exact hw.due

/-- Only the first delay is one second. -/
theorem Working.zero (hw : Working h 1) : reconnects h = 0 := by
  have hdue := hw.due
  cases hn : reconnects h with
  | zero => rfl
  | succ n =>
      have := Nat.one_le_two_pow (n := n)
      have := pow_succ 2 n
      rw [hn, backoff] at hdue
      omega

/-- A failed call of the broker, unless it was to connect, leaves the delay that is due. -/
theorem Working.broken (hw : Working h delay) {o : Rabbit.Op Body V} {e : Err}
    (hneeds : needsBroker o = true) (hcon : isConnect o = false) (hr : answers h o (.error e)) :
    Broken (⟨o, .error e⟩ :: h) delay e where
  isAmqp := amqp_of_answers hneeds hr
  cause := ⟨_, _, rfl, by simp [brokerFailed, hneeds, Call.isOk]⟩
  due := by
    rw [reconnects_failed hcon (by simp [brokerFailed, hneeds, Call.isOk])]
    exact hw.due

/-- A call of the broker that neither connects nor ends a set-up. -/
theorem obeys_brokerCall {o : Rabbit.Op Body V} (hw : Working h delay) (hP : P client)
    (hneeds : needsBroker o = true) (hset : isSetUp o = false) (hcon : isConnect o = false)
    (hmay : mayCall loads h o) :
    Method.Obeys (protocol loads) (worksOrBroken delay P) h client (Rabbit.call o) := by
  refine Method.Obeys.perform hmay fun r hr => ?_
  cases r with
  | ok a => exact ⟨hw.cons hset hcon (by simp [brokerFailed, Call.isOk]), hP⟩
  | error e => exact hw.broken hneeds hcon hr

/-- A connection may be attempted now, and `delay` is what its failure would cost. -/
inductive MayConnect : List (RabbitCall Body V) → Nat → Prop where
  | first {h : List (RabbitCall Body V)} (hh : ∀ c ∈ h, brokerFailed c = false) : MayConnect h 1
  | again {s : List (RabbitCall Body V)} (hfail : ∃ c ∈ s, brokerFailed c = true) :
      MayConnect (⟨.sleep (backoff (reconnects s)), .ok ()⟩ :: s) (backoff (reconnects s + 1))

theorem MayConnect.may (hm : MayConnect h delay) (url : String) :
    mayCall loads h (.blockingConnection url) := by
  cases hm with
  | first hh => exact .inl hh
  | again _ => exact .inr ⟨_, rfl⟩

theorem MayConnect.due (hm : MayConnect h delay) {c : RabbitCall Body V}
    (hcon : isConnect c.op = true) (hset : isSetUp c.op = false) :
    delay = backoff (reconnects (c :: h)) := by
  cases hm with
  | first hh =>
      have hany : h.any brokerFailed = false := by
        rw [List.any_eq_false]
        intro x hx
        rw [hh x hx]
        exact Bool.false_ne_true
      simp [reconnects, hset, hany, reconnects_of_no_failure hh, backoff]
  | again hfail =>
      obtain ⟨x, hx, hbad⟩ := hfail
      rw [reconnects_connect hset hcon ⟨x, List.mem_cons_of_mem _ hx, hbad⟩,
        reconnects_plain rfl rfl]

theorem obeys_openChannel (hm : MayConnect h delay) (url : String) :
    Method.Obeys (protocol loads) (worksOrBroken delay Connected) h client (openChannel url) := by
  refine Method.Obeys.bind (R := worksOrBroken delay fun _ => True) ?_ ?_ fun t e s' hr => hr
  · have hmay : mayCall loads h (.blockingConnection url) := hm.may url
    refine Method.Obeys.perform hmay fun r hr => ?_
    cases r with
    | ok connection => exact ⟨⟨Healthy.connect rfl, hm.due rfl rfl⟩, trivial⟩
    | error e =>
        have hanswer : answers h (.blockingConnection url) (.error e) := hr
        exact ⟨amqp_of_answers rfl hanswer, ⟨_, _, rfl, rfl⟩, hm.due rfl rfl⟩
  · intro t connection s' hr
    refine Method.obeys_modify_bind.mpr ?_
    refine Method.Obeys.bind (obeys_brokerCall (P := fun c => c.connection.isSome = true)
      hr.1 rfl rfl rfl rfl trivial) ?_ fun t e s' hr => hr
    intro t channel s' hr
    refine Method.obeys_modify_bind.mpr ?_
    exact obeys_brokerCall hr.1 ⟨hr.2, rfl⟩ rfl rfl rfl trivial

/-- What the reconnect loop knows when it comes to `while True`. -/
inductive Connecting : List (RabbitCall Body V) → Nat → Client → Prop where
  | fresh {h : List (RabbitCall Body V)} {client : Client} (healthy : Healthy h)
      (hzero : reconnects h = 0) (hchan : client.connection.isSome = true → Connected client)
      (hnone : client.connection = none → ∀ c ∈ h, brokerFailed c = false) :
      Connecting h 1 client
  | slept {s : List (RabbitCall Body V)} (hfail : ∃ c ∈ s, brokerFailed c = true) :
      Connecting (⟨.sleep (backoff (reconnects s)), .ok ()⟩ :: s) (backoff (reconnects s + 1))
        Client.new

/-- Without a connection one may be attempted; with one, it is closed only if it was never tried. -/
theorem obeys_connectionClosed (hc : Connecting h delay client) :
    Method.Obeys (protocol loads)
      (fun t r s => ∃ closed, r = .ok closed
        ∧ (closed = true → MayConnect t delay)
        ∧ (closed = false → Working t delay ∧ Connected s)) h client connectionClosed := by
  rw [connectionClosed, Method.obeys_get_bind]
  cases hc with
  | slept hfail => exact ⟨true, rfl, fun _ => .again hfail, fun hne => by cases hne⟩
  | fresh healthy hzero hchan hnone =>
      cases hcon : client.connection with
      | none =>
          exact ⟨true, rfl, fun _ => .first (hnone hcon), fun hne => by cases hne⟩
      | some connection =>
          refine Method.Obeys.perform (D := protocol loads) (o := .isClosed connection) trivial ?_
          intro r hr
          obtain ⟨b, rfl, hclosed⟩ := hr
          have hdue : 1 = backoff (reconnects h) := by rw [hzero]; rfl
          have hw : Working h 1 := ⟨healthy, hdue⟩
          refine ⟨b, rfl, ?_, ?_⟩
          · intro hb
            -- the connection is the one the client came with, and none of its calls failed
            have hnever : ∀ c ∈ h, isConnect c.op = false :=
              (hclosed hb).resolve_right fun hbad => hbad healthy
            refine .first ?_
            intro c hmem
            rcases List.mem_cons.mp hmem with rfl | hmem
            · rfl
            · refine healthy c ?_
              rw [List.takeWhile_eq_self_iff.mpr fun x hx => by simp [hnever x hx]]
              exact hmem
          · intro _
            exact ⟨hw.cons rfl rfl rfl, hchan (by rw [hcon]; rfl)⟩

theorem obeys_ensureChannel (hc : Connecting h delay client) (url : String) :
    Method.Obeys (protocol loads) (worksOrBroken delay Connected) h client (ensureChannel url) := by
  refine Method.Obeys.bind (obeys_connectionClosed hc) ?_ ?_
  · intro t closed s' hr
    obtain ⟨b, hb, hopen, hkeep⟩ := hr
    cases hb
    refine Method.Obeys.bind (R := worksOrBroken delay Connected) ?_ ?_ fun t e s' hr => hr
    · cases closed with
      | true => exact obeys_openChannel (hopen rfl) url
      | false => exact hkeep rfl
    · intro t _ s' hr
      rw [Method.obeys_get_bind]
      cases hchan : s'.channel with
      | some channel => exact hr
      | none =>
          have := hr.2.2
          rw [hchan] at this
          cases this
  · intro t e s' hr
    obtain ⟨b, hb, -⟩ := hr
    cases hb

/-- A set-up that succeeded counts no reconnects. -/
def readyOrBroken {α : Type} (delay : Nat) (t : List (RabbitCall Body V)) :
    Except Err α → Client → Prop
  | .ok _, client => Healthy t ∧ reconnects t = 0 ∧ Connected client
  | .error e, _ => Broken t delay e

theorem obeys_queueBind (hw : Working h delay) (hP : P client) (ch : Channel) (queue : String)
    (routingKeys : List String) :
    Method.Obeys (protocol loads) (worksOrBroken delay P) h client
      (routingKeys.forM fun key => Rabbit.call (.queueBind ch exchangeName queue key)) := by
  induction routingKeys generalizing h client with
  | nil => exact ⟨hw, hP⟩
  | cons key keys ih =>
      refine Method.Obeys.bind (obeys_brokerCall hw hP rfl rfl rfl trivial) ?_ fun t e s' hr => hr
      intro t _ s' hr
      exact ih hr.1 hr.2

theorem obeys_setUp (hc : Connecting h delay client) (url queue : String)
    (routingKeys : List String) :
    Method.Obeys (protocol loads) (readyOrBroken delay) h client
      (setUp url queue routingKeys) := by
  refine Method.Obeys.bind (obeys_ensureChannel hc url) ?_ fun t e s' hr => hr
  intro t channel s' hr
  refine Method.Obeys.bind (obeys_brokerCall hr.1 hr.2 rfl rfl rfl trivial) ?_ fun t e s' hr => hr
  intro t _ s' hr
  refine Method.Obeys.bind (obeys_queueBind hr.1 hr.2 channel queue routingKeys) ?_
    fun t e s' hr => hr
  intro t _ s' hr
  refine Method.Obeys.bind (obeys_brokerCall hr.1 hr.2 rfl rfl rfl trivial) ?_ fun t e s' hr => hr
  intro t _ s' hr
  refine Method.Obeys.bind (R := readyOrBroken delay) ?_ (fun t _ s' hr => hr) fun t e s' hr => hr
  refine Method.Obeys.perform (D := protocol loads) (o := .basicConsume channel queue) trivial ?_
  intro r hanswer
  cases r with
  | ok _ => exact ⟨hr.1.healthy.cons rfl, reconnects_setUp rfl rfl, hr.2⟩
  | error e => exact hr.1.broken rfl rfl hanswer

/-- A delivery is settled once, by what decoding and the handler did with it. -/
theorem obeys_callback {ch : Channel} {delivery : Delivery Body} (hw : Working h delay)
    (hP : P client) (hdel : ∃ s, h = ⟨.nextDelivery ch, .ok (some delivery)⟩ :: s) :
    Method.Obeys (protocol loads) (worksOrBroken delay P) h client
      (callback loads ch delivery) := by
  obtain ⟨s, rfl⟩ := hdel
  refine Method.Obeys.bind (R := Method.post (fun t processed s' => Working t delay ∧ P s'
    ∧ if processed then decoded loads ch delivery.deliveryTag (.ok ()) t
      else undecodable loads ch delivery.deliveryTag t
        ∨ ∃ e, decoded loads ch delivery.deliveryTag (.error e) t) fun _ _ _ => False) ?_ ?_ ?_
  · refine Method.Obeys.tryCatch (R := Method.post (fun t processed s' => Working t delay ∧ P s'
      ∧ processed = true ∧ decoded loads ch delivery.deliveryTag (.ok ()) t)
      fun t _ s' => Working t delay ∧ P s' ∧ (undecodable loads ch delivery.deliveryTag t
        ∨ ∃ e, decoded loads ch delivery.deliveryTag (.error e) t)) ?_ ?_ ?_
    · cases hloads : loads delivery.body with
      | error e => exact ⟨hw, hP, .inl ⟨delivery.body, e, s, hloads, rfl⟩⟩
      | ok message =>
          refine Method.Obeys.call (D := protocol loads) (o := .onMessage message) trivial
            (fun _ _ => ?_) fun e _ => ?_
          · exact ⟨hw.cons rfl rfl rfl, hP, rfl, delivery.body, message, s, hloads, rfl⟩
          · exact ⟨hw.cons rfl rfl rfl, hP,
              .inr ⟨e, delivery.body, message, s, hloads, rfl⟩⟩
    · intro t processed s' hr
      obtain ⟨hwork, hP', rfl, hdec⟩ := hr
      exact ⟨hwork, hP', hdec⟩
    · intro t e s' hr
      exact hr
  · intro t processed s' hr
    obtain ⟨hwork, hP', hdone⟩ := hr
    cases processed with
    | true => exact obeys_brokerCall hwork hP' rfl rfl rfl hdone
    | false => exact obeys_brokerCall hwork hP' rfl rfl rfl ⟨rfl, hdone⟩
  · intro t e s' hr
    exact hr.elim

/-- The calls of `_discard_connection`. -/
def isClosing : Rabbit.Op Body V → Bool
  | .isOpen _ | .close _ => true
  | _ => false

/-- The broker failed, and since then the thread did nothing but close the connection. -/
def FailedJustNow (t : List (RabbitCall Body V)) : Prop :=
  ∃ closing c s, t = closing ++ c :: s ∧ brokerFailed c = true ∧ ∀ x ∈ closing, isClosing x.op = true

theorem FailedJustNow.cons (ht : FailedJustNow h) {c : RabbitCall Body V}
    (hc : isClosing c.op = true) : FailedJustNow (c :: h) := by
  obtain ⟨closing, d, s, rfl, hbad, hclosing⟩ := ht
  refine ⟨c :: closing, d, s, rfl, hbad, ?_⟩
  intro x hx
  rcases List.mem_cons.mp hx with rfl | hx
  · exact hc
  · exact hclosing x hx

theorem FailedJustNow.exists (ht : FailedJustNow h) : ∃ c ∈ h, brokerFailed c = true := by
  obtain ⟨closing, c, s, rfl, hbad, -⟩ := ht
  exact ⟨c, List.mem_append_right _ (List.mem_cons_self ..), hbad⟩

/-- The connection is being given up, and `delay` is to be waited before the next one. -/
structure Discarding (t : List (RabbitCall Body V)) (delay : Nat) : Prop where
  failed : FailedJustNow t
  due : delay = backoff (reconnects t)

theorem Discarding.closing (hd : Discarding h delay) {o : Rabbit.Op Body V} (hc : isClosing o = true) :
    Method.Obeys (protocol loads) (fun t _ _ => Discarding t delay) h client (Rabbit.call o) := by
  have hmay : mayCall loads h o := by
    cases o with
    | isOpen _ | close _ => trivial
    | _ => cases hc
  refine Method.Obeys.perform hmay fun r _ => ⟨hd.failed.cons hc, ?_⟩
  have hplain : isSetUp o = false ∧ isConnect o = false := by
    cases o with
    | isOpen _ | close _ => exact ⟨rfl, rfl⟩
    | _ => cases hc
  rw [reconnects_plain hplain.1 hplain.2]
  exact hd.due

theorem obeys_discardConnection (hd : Discarding h delay) :
    Method.Obeys (protocol loads) (fun t r s => r = .ok () ∧ s = Client.new ∧ Discarding t delay)
      h client discardConnection := by
  refine Method.Obeys.bind (R := fun t r _ => r = .ok () ∧ Discarding t delay) ?_ ?_ ?_
  · refine Method.Obeys.tryCatch (R := fun t _ _ => Discarding t delay) ?_ ?_ ?_
    · refine Method.obeys_get_bind.mpr ?_
      cases hcon : client.connection with
      | none => exact hd
      | some connection =>
          refine Method.Obeys.bind (R := fun t _ _ => Discarding t delay) (hd.closing rfl) ?_
            fun t e s' hr => hr
          intro t isOpen s' hr
          cases isOpen with
          | true => exact hr.closing rfl
          | false => exact hr
    · intro t _ s' hr
      exact ⟨rfl, hr⟩
    · intro t e s' hr
      exact ⟨rfl, hr⟩
  · intro t _ s' hr
    exact ⟨rfl, rfl, hr.2⟩
  · intro t e s' hr
    cases hr.1

/-- The invariant of the two loops. -/
def consumeInv (t : List (RabbitCall Body V)) : Point → Client → Prop
  | .connecting delay, client => Connecting t delay client
  | .consuming _, client => Healthy t ∧ reconnects t = 0 ∧ Connected client

/-- `consume` returned: the broker had failed, and the thread had been told to stop. -/
def Stopped (t : List (RabbitCall Body V)) (r : Except Err Unit) : Prop :=
  r = .ok () ∧ ∃ s, t = ⟨.stopping, .ok true⟩ :: s ∧ FailedJustNow s

theorem obeys_connectionError {e : Err} (hb : Broken h delay e) :
    Method.Obeys (protocol loads) (loopPost consumeInv Stopped) h client
      (connectionError delay e) := by
  obtain ⟨hamqp, ⟨c, s, hcause, hbad⟩, hdue⟩ := hb
  have hd : Discarding h delay := ⟨⟨[], c, s, hcause, hbad, by simp⟩, hdue⟩
  rw [connectionError, if_neg (by simp [hamqp])]
  refine Method.Obeys.bind (obeys_discardConnection hd) ?_ ?_
  · intro t _ s' hr
    obtain ⟨-, rfl, hd⟩ := hr
    refine Method.Obeys.call (D := protocol loads) (o := .stopping) trivial
      (fun stopping _ => ?_) fun e hanswer => ?_
    · cases stopping with
      | true => exact ⟨rfl, t, rfl, hd.failed⟩
      | false =>
          refine Method.Obeys.call (D := protocol loads) (o := .sleep delay) trivial
            (fun _ _ => ?_) fun e hanswer => by cases hanswer
          obtain ⟨x, hx, hbad⟩ := hd.failed.exists
          have hnext := Connecting.slept (s := ⟨.stopping, .ok false⟩ :: t)
            ⟨x, List.mem_cons_of_mem _ hx, hbad⟩
          rw [reconnects_plain rfl rfl, ← backoff_succ, ← hd.due] at hnext
          exact hnext
    · obtain ⟨b, hb⟩ := hanswer
      cases hb
  · intro t e s' hr
    cases hr.1

theorem obeys_consume {point : Point} (hinv : consumeInv h point client) (url queue : String)
    (routingKeys : List String) :
    Method.Obeys (protocol loads) (loopPost consumeInv Stopped) h client
      (consume loads url queue routingKeys point) := by
  cases point with
  | connecting delay =>
      refine Method.Obeys.tryCatch (R := Method.post (fun t round s =>
        loopPost consumeInv Stopped t (.ok round) s) fun t e _ => Broken t delay e) ?_
        (fun t round s' hr => hr) fun t e s' hr => obeys_connectionError hr
      refine Method.Obeys.bind (obeys_setUp hinv url queue routingKeys) ?_ fun t e s' hr => hr
      intro t ch s' hr
      exact hr
  | consuming ch =>
      obtain ⟨hhealthy, hzero, hcon⟩ := hinv
      have hw : Working h 1 := ⟨hhealthy, by rw [hzero]; rfl⟩
      refine Method.Obeys.tryCatch (R := Method.post (fun t round s =>
        loopPost consumeInv Stopped t (.ok round) s) fun t e _ => Broken t 1 e) ?_
        (fun t round s' hr => hr) fun t e s' hr => obeys_connectionError hr
      refine Method.Obeys.call (D := protocol loads) (o := .nextDelivery ch) trivial
        (fun delivery _ => ?_) fun e hanswer => hw.broken rfl rfl hanswer
      have hwork : Working (⟨.nextDelivery ch, .ok delivery⟩ :: h) 1 := hw.cons rfl rfl rfl
      cases delivery with
      | some delivery =>
          refine Method.Obeys.bind (obeys_callback hwork hcon ⟨h, rfl⟩) ?_ fun t e s' hr => hr
          intro t _ s' hr
          exact ⟨hr.1.healthy, hr.1.zero, hr.2⟩
      | none =>
          -- no consumer is left on the channel, but the connection is as it was
          refine .fresh hwork.healthy hwork.zero (fun _ => hcon) ?_
          intro hnone
          have := hcon.1
          rw [hnone] at this
          cases this

end Methods

/-! ## Whole executions -/

def isSettle : Rabbit.Op Body V → Bool
  | .basicAck _ _ | .basicNack _ _ _ => true
  | _ => false

def isDelivery : Rabbit.Op Body V → Bool
  | .nextDelivery _ => true
  | _ => false

/-- What the thread did with its delivery is the first thing after it. -/
theorem settled_of_mayCall {loads : Body → Except Err V} {s : List (RabbitCall Body V)}
    {o : Rabbit.Op Body V} (ho : isSettle o = true) (hmay : mayCall loads s o) :
    ∃ worked d s', s = worked ++ d :: s' ∧ isDelivery d.op = true
      ∧ ∀ x ∈ worked, isSettle x.op = false := by
  have hdecoded : ∀ {ch tag r}, decoded loads ch tag r s →
      ∃ worked d s', s = worked ++ d :: s' ∧ isDelivery d.op = true
        ∧ ∀ x ∈ worked, isSettle x.op = false := by
    intro ch tag r hd
    obtain ⟨body, message, s', -, rfl⟩ := hd
    exact ⟨[_], _, s', rfl, rfl, by simp [isSettle]⟩
  cases o with
  | basicAck ch tag => exact hdecoded hmay
  | basicNack ch tag requeue =>
      obtain ⟨-, hbad | ⟨e, hd⟩⟩ := hmay
      · obtain ⟨body, e, s', -, rfl⟩ := hbad
        exact ⟨[], _, s', rfl, rfl, by simp⟩
      · exact hdecoded hd
  | _ => cases ho

/-- **Between two settlements there is a delivery.** -/
theorem delivery_between {loads : Body → Except Err V} {t mid s : List (RabbitCall Body V)}
    {c d : RabbitCall Body V} (hkept : (protocol loads).Kept t) (hsuf : d :: (mid ++ c :: s) <:+ t)
    (hc : isSettle c.op = true) (hd : isSettle d.op = true) : ∃ x ∈ mid, isDelivery x.op = true := by
  obtain ⟨worked, x, s', heq, hx, hworked⟩ := settled_of_mayCall hd (hkept _ _ hsuf)
  have hnot : ∀ y ∈ worked ++ [x], isSettle y.op = false := by
    intro y hy
    rcases List.mem_append.mp hy with hy | hy
    · exact hworked y hy
    · rw [List.mem_singleton.mp hy]
      cases hop : x.op with
      | nextDelivery _ => rfl
      | _ => rw [hop] at hx; cases hx
  have hmem : x ∈ worked ++ [x] := by simp
  rw [List.append_cons worked] at heq
  rcases List.append_eq_append_iff.mp heq with ⟨bs, hbs, htail⟩ | ⟨bs, hbs, -⟩
  · cases bs with
    | nil =>
        rw [List.append_nil] at hbs
        exact ⟨x, hbs ▸ hmem, hx⟩
    | cons b bs =>
        -- the earlier settlement would be among the calls that settled nothing
        obtain ⟨rfl, -⟩ := List.cons.inj htail
        have := hnot c (by rw [hbs]; simp)
        rw [hc] at this
        cases this
  · exact ⟨x, by rw [hbs]; exact List.mem_append_left _ hmem, hx⟩

/-- From the call of `consume` on `client`, the thread may come to the history `t`, newest call
first, with `q` left of its round. -/
def Consumes (loads : Body → Except Err V) (url queue : String) (routingKeys : List String)
    (client : Client) (t : List (RabbitCall Body V))
    (q : Rounds (Rabbit.Op Body V) Rabbit.Op.Res Err Client Point Unit) : Prop :=
  Reaches answers (consume loads url queue routingKeys) []
    (consume loads url queue routingKeys (.connecting 1) client) t q

/--
**The consumer loop never dies and never acknowledges wrongly.** Whatever the broker
and the handler do: a delivery is acked right after the handler returned on its decoded
body, and nacked, without requeue, right after decoding or the handler raised; of two
settlements the later one has a delivery of its own; `consume` returns only when the
broker just failed and `_stopping` is set, and it never raises; and the `k`-th reconnect
since the last successful set-up comes right after a sleep of `min (2 ^ (k - 1)) 30`.
-/
theorem consumer_loop {loads : Body → Except Err V} {url queue : String}
    {routingKeys : List String} {client : Client} {t : List (RabbitCall Body V)}
    {q : Rounds (Rabbit.Op Body V) Rabbit.Op.Res Err Client Point Unit}
    (hclient : client.connection.isSome = true → client.channel.isSome = true)
    (h : Consumes loads url queue routingKeys client t q) :
    (∀ ch tag r s, ⟨.basicAck ch tag, r⟩ :: s <:+ t → decoded loads ch tag (.ok ()) s)
      ∧ (∀ ch tag requeue r s, ⟨.basicNack ch tag requeue, r⟩ :: s <:+ t → requeue = false
          ∧ (undecodable loads ch tag s ∨ ∃ e, decoded loads ch tag (.error e) s))
      ∧ (∀ c d mid s, d :: (mid ++ c :: s) <:+ t → isSettle c.op = true → isSettle d.op = true →
          ∃ x ∈ mid, isDelivery x.op = true)
      ∧ (∀ client', q = .ret (.ok (.done ()), client') →
          ∃ s, t = ⟨.stopping, .ok true⟩ :: s ∧ FailedJustNow s)
      ∧ (∀ e, q ≠ .raise e) ∧ (∀ e client', q ≠ .ret (.error e, client'))
      ∧ ∀ k url' r s, ⟨.blockingConnection url', r⟩ :: s <:+ t → (∃ c ∈ s, brokerFailed c = true) →
          k = reconnects (⟨.blockingConnection url', r⟩ :: s) →
          ∃ s', s = ⟨.sleep (min (2 ^ (k - 1)) 30), .ok ()⟩ :: s' := by
  have hstart : consumeInv ([] : List (RabbitCall Body V)) (.connecting 1) client :=
    .fresh (fun c hc => by cases hc) rfl (fun hcon => ⟨hcon, hclient hcon⟩)
      fun _ c hc => by cases hc
  have hbody : ∀ (h : List (RabbitCall Body V)) (l : Point) (s : Client), consumeInv h l s →
      Method.Obeys (protocol loads) (loopPost consumeInv Stopped) h s
        (consume loads url queue routingKeys l) :=
    fun h l s hinv => obeys_consume hinv url queue routingKeys
  obtain ⟨hkept, hq⟩ := Reaches.kept (D := protocol loads) hbody h (hbody _ _ _ hstart)
    (Discipline.Kept.nil _)
  refine ⟨fun ch tag r s hs => hkept _ _ hs, fun ch tag requeue r s hs => hkept _ _ hs,
    fun c d mid s hs hc hd => delivery_between hkept hs hc hd, ?_, ?_, ?_, ?_⟩
  · intro client' hdone
    rw [hdone] at hq
    exact hq.2
  · intro e hraise
    rw [hraise] at hq
    exact hq
  · intro e client' herr
    rw [herr] at hq
    cases hq.1
  · intro k url' r s hs hfail hk
    have hmay : mayCall loads s (.blockingConnection url') := hkept _ _ hs
    obtain hnone | ⟨s', rfl⟩ := hmay
    · obtain ⟨c, hc, hbad⟩ := hfail
      rw [hnone c hc] at hbad
      cases hbad
    · rw [reconnects_connect rfl rfl hfail, reconnects_plain rfl rfl] at hk
      refine ⟨s', ?_⟩
      rw [hk, Nat.add_sub_cancel, backoff]

/-- A thread that found its client connected, and acks the first delivery. -/
def firstAck : List (RabbitCall Nat Nat) :=
  [⟨.basicAck 0 7, .ok ()⟩, ⟨.onMessage 5, .ok ()⟩, ⟨.nextDelivery 0, .ok (some ⟨7, 5⟩)⟩,
    ⟨.basicConsume 0 "q", .ok ()⟩, ⟨.basicQos 0 20, .ok ()⟩, ⟨.queueDeclare 0 "q" true, .ok ()⟩,
    ⟨.isClosed 0, .ok false⟩]

theorem consumes_firstAck : Consumes (fun body => .ok body) "" "q" [] ⟨some 0, some 0⟩ firstAck
    (.ret (.ok (.again (.consuming 0)), ⟨some 0, some 0⟩)) := by
  refine .call (r := .ok false) ⟨false, rfl, fun hne => by cases hne⟩ ?_
  refine .call (r := .ok ()) (answers_ok rfl) (.call (r := .ok ()) (answers_ok rfl) ?_)
  refine .call (r := .ok ()) (answers_ok rfl) (.again ?_)
  refine .call (r := .ok (some ⟨7, 5⟩)) (answers_ok rfl) (.call (r := .ok ()) trivial ?_)
  exact .call (r := .ok ()) (answers_ok rfl) (.refl _ _)

theorem consumer_loop_firstAck :
    decoded (fun body : Nat => (.ok body : Except Err Nat)) 0 7 (.ok ()) firstAck.tail :=
  (consumer_loop (fun _ => rfl) consumes_firstAck).1 0 7 (.ok ()) firstAck.tail
    (List.suffix_refl _)

end HyperTrace.Rabbit
