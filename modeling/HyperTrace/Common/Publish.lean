import HyperTrace.Common.Consume
import HyperTrace.Effect.Sum

/-!
# The publisher

`RabbitMQClient.publish` of `messaging.py`, down to the single call of `pika`. It
works on the same two attributes as `consume`, through the same `_ensure_channel`
and `_discard_connection`; its own call is `channel.basic_publish`.
-/

namespace HyperTrace.Rabbit

open Effect

/-- `pika.BasicProperties` -/
structure BasicProperties where
  contentType : String
  deliveryMode : Nat

/-- `channel.basic_publish(...)` -/
structure Write (Body : Type) where
  ch : Channel
  exchange : String
  routingKey : String
  body : Body
  properties : BasicProperties

/-- Every call a publisher makes. -/
abbrev PublisherOp (Body V : Type) := Rabbit.Op Body V ⊕ Write Body

variable {Body V : Type}

abbrev PublisherRes : PublisherOp Body V → Type := Sum.elim Rabbit.Op.Res fun _ => Unit

abbrev PublisherMethod (Body V α : Type) :=
  Method (PublisherOp Body V) PublisherRes Err Client α

def basicPublish (write : Write Body) : PublisherMethod Body V Unit :=
  Method.perform (Sum.inr write : PublisherOp Body V)

/-- The `try` block of an attempt. -/
def writeOnce (url : String) (write : Channel → Write Body) : PublisherMethod Body V Unit := do
  let ch ← (ensureChannel url).inl
  basicPublish (write ch)

/-- What is left of `for attempt in (1, 2)`. -/
def attempts (url : String) (write : Channel → Write Body) :
    List Nat → PublisherMethod Body V Unit
  | [] => pure ()
  | attempt :: rest => do
      let written ← try
          writeOnce url write
          pure true
        catch e =>
          if e ≠ .amqp then
            throw e
          discardConnection.inl
          if attempt = 2 then
            throw e
          pure false
      if written then pure () else attempts url write rest

/-- `dumps` is `json.dumps(payload, default=str).encode("utf-8")`. -/
def publish (dumps : V → Except Err Body) (url routingKey : String) (payload : V) :
    PublisherMethod Body V Unit := do
  let body ← match dumps payload with
    | .ok body => pure body
    | .error e => throw e
  let properties := ⟨"application/json", 2⟩
  attempts url (fun ch => ⟨ch, exchangeName, routingKey, body, properties⟩) [1, 2]

end HyperTrace.Rabbit
