import HyperTrace.Common.World

/-!
# Publishing and consuming

`RabbitMQClient.publish` and the per-delivery callback of
`RabbitMQClient.consume`, over one write attempt as the basic operation. The
connection and channel bookkeeping below a write attempt is not visible to a
handler; `Common.Publish` has it.
-/

namespace HyperTrace

variable {K : Type}

/-- What a finished thread leaves behind: nothing, or the body of an HTTP response. -/
inductive Reply where
  | none
  /-- `ActionDispatched(action_id, status="dispatched")` -/
  | dispatched (actionId : Uuid)
  /-- `PolicyOut` of a stored policy -/
  | policy (id : Uuid)
  deriving DecidableEq, Repr

/--
`RabbitMQClient.publish`: two attempts, the second only after the first one failed
on a dead connection. Whatever the second attempt raises is raised.
-/
def publish (p : Payload K) : Py K Unit := do
  try
    call (.basicPublish p)
  catch e =>
    if e = .amqp then call (.basicPublish p) else throw e

/--
`consume._callback`: ack after the handler returned, nack without requeue after it
raised anything.
-/
def callback (consumer : Consumer) (onMessage : Py K Unit) : Py K Reply := do
  let ok ← try
      onMessage
      pure true
    catch _ =>
      pure false
  call (.settle consumer ok)
  return .none

end HyperTrace
