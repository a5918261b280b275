import HyperTrace.Common.Values
import HyperTrace.Effect.Loop

/-!
# The consumer loop

`RabbitMQClient` of `messaging.py`, as the target of a consumer thread: the
connection it keeps, the reconnect loop of `consume`, and the callback for one
delivery, down to the single call of `pika`. `start_consuming` is `pika`'s own
loop; here each of its waits is a call, answered with a delivery, or with none
when no consumer is left on the channel, or with the error of a lost connection.
-/

namespace HyperTrace.Rabbit

open Effect

def exchangeName : String := "hypertrace.events"
def exchangeType : String := "topic"

/-- Handles that `pika` gives out. -/
abbrev Connection := Nat
abbrev Channel := Nat

/-- `method` and `body` of a delivery. -/
structure Delivery (Body : Type) where
  deliveryTag : Nat
  body : Body

/-- The attributes of a client that it assigns itself; `_stopping` is set by other threads. -/
structure Client where
  connection : Option Connection
  channel : Option Channel

/-- `RabbitMQClient()` -/
def Client.new : Client := ⟨none, none⟩

/-- Every call a consumer thread makes. -/
inductive Op (Body V : Type) where
  /-- `pika.BlockingConnection(params)` -/
  | blockingConnection (url : String)
  | isClosed (connection : Connection)
  | isOpen (connection : Connection)
  | close (connection : Connection)
  /-- `connection.channel()` -/
  | channel (connection : Connection)
  | exchangeDeclare (ch : Channel) (exchange exchangeType : String) (durable : Bool)
  | queueDeclare (ch : Channel) (queue : String) (durable : Bool)
  | queueBind (ch : Channel) (exchange queue routingKey : String)
  | basicQos (ch : Channel) (prefetchCount : Nat)
  | basicConsume (ch : Channel) (queue : String)
  /-- One wait of `channel.start_consuming()`. -/
  | nextDelivery (ch : Channel)
  | basicAck (ch : Channel) (deliveryTag : Nat)
  | basicNack (ch : Channel) (deliveryTag : Nat) (requeue : Bool)
  /-- `on_message(message)` -/
  | onMessage (message : V)
  /-- Reading `self._stopping`. -/
  | stopping
  | sleep (seconds : Nat)

variable {Body V : Type}

/-- What each call returns. -/
def Op.Res : Op Body V → Type
  | .blockingConnection _ => Connection
  | .isClosed _ => Bool
  | .isOpen _ => Bool
  | .channel _ => Channel
  | .nextDelivery _ => Option (Delivery Body)
  | .stopping => Bool
  | _ => Unit

/-- A method of the client. -/
abbrev ClientMethod (Body V α : Type) := Method (Op Body V) Op.Res Err Client α

abbrev call (o : Op Body V) : ClientMethod Body V o.Res := Method.perform o

/-- `self._connection is None or self._connection.is_closed` -/
def connectionClosed : ClientMethod Body V Bool := do
  match (← get).connection with
  | none => pure true
  | some connection => call (.isClosed connection)

/-- The body of the `if` of `_ensure_channel`. -/
def openChannel (url : String) : ClientMethod Body V Unit := do
  let connection ← call (.blockingConnection url)
  modify fun client => { client with connection := some connection }
  let channel ← call (.channel connection)
  modify fun client => { client with channel := some channel }
  call (.exchangeDeclare channel exchangeName exchangeType true)

def ensureChannel (url : String) : ClientMethod Body V Channel := do
  let closed ← connectionClosed
  (if closed then openChannel url else pure ())
  match (← get).channel with
  | some channel => pure channel
  -- `assert self._channel is not None`
  | none => throw .other

def discardConnection : ClientMethod Body V Unit := do
  try
    let client ← get
    if let some connection := client.connection then
      let isOpen : Bool ← call (.isOpen connection)
      if isOpen then
        call (.close connection)
  catch _ =>
    pure ()
  set Client.new

/-- `_callback`: `loads` is `json.loads`, which raises on a body that is no JSON text. -/
def callback (loads : Body → Except Err V) (ch : Channel) (delivery : Delivery Body) :
    ClientMethod Body V Unit := do
  let processed ← try
      match loads delivery.body with
      | .ok message => call (.onMessage message)
      | .error e => throw e
      pure true
    catch _ =>
      pure false
  if processed then
    call (.basicAck ch delivery.deliveryTag)
  else
    call (.basicNack ch delivery.deliveryTag false)

/-- Where `consume` is between two calls of its two loops. -/
inductive Point where
  /-- At `while True`, with its `delay`. -/
  | connecting (delay : Nat)
  /-- In `channel.start_consuming()`. -/
  | consuming (ch : Channel)

/-- From `while True` to `delay = 1.0`. -/
def setUp (url queue : String) (routingKeys : List String) : ClientMethod Body V Channel := do
  let channel ← ensureChannel url
  call (.queueDeclare channel queue true)
  routingKeys.forM fun key => call (.queueBind channel exchangeName queue key)
  call (.basicQos channel 20)
  call (.basicConsume channel queue)
  return channel

/-- `except (pika.exceptions.AMQPError, OSError)` of the loop, anything else being let through. -/
def connectionError (delay : Nat) (e : Err) : ClientMethod Body V (Round Point Unit) := do
  if e ≠ .amqp then
    throw e
  discardConnection
  let stopping : Bool ← call .stopping
  if stopping then
    return .done ()
  call (.sleep delay)
  return .again (.connecting (min (delay * 2) 30))

/-- The body of the reconnect loop, and of `start_consuming` inside it. -/
def consume (loads : Body → Except Err V) (url queue : String) (routingKeys : List String) :
    Point → ClientMethod Body V (Round Point Unit)
  | .connecting delay => do
      try
        let channel ← setUp url queue routingKeys
        pure (.again (.consuming channel))
      catch e =>
        connectionError delay e
  | .consuming ch => do
      -- the delay was reset when the set-up succeeded
      try
        match ← call (.nextDelivery ch) with
        | some delivery =>
            callback loads ch delivery
            pure (.again (.consuming ch))
        | none => pure (.again (.connecting 1))
      catch e =>
        connectionError 1 e

end HyperTrace.Rabbit
