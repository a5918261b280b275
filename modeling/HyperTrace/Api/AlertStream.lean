import HyperTrace.Effect.Queue
import Mathlib.Data.Finset.Basic
import Mathlib.Data.List.Nodup

/-!
# The alert stream

`AlertBroadcaster` of the BFF, and `stream_alerts`, which serves one client over a
WebSocket. A thread of its own consumes the alerts and hands each to the event loop;
all the rest runs on the loop, where nothing comes between one await and the next. So an
act is what happens from one await to the next, and between any two of them any other may
come: of another client, of the loop, of the consuming thread.

A client is named by the queue that its request is given. Which tokens are valid is a
parameter, and so is, at each fan-out, the order in which the set lists the subscribers.
-/

namespace HyperTrace.Api

open Effect

/-- `MAX_QUEUED_ALERTS_PER_CLIENT` -/
def maxQueuedAlertsPerClient : Nat := 100

/-- How far `stream_alerts` has come. -/
inductive Phase where
  /-- The request has yet to come. -/
  | idle
  /-- It waits for `queue.get()`. -/
  | getting
  /-- It waits for `websocket.send_json(alert)`. -/
  | sending
  /-- It has returned. -/
  | closed
  deriving DecidableEq

/-- A client's queue, and the alerts taken from it. -/
structure Connection (α : Type) where
  phase : Phase
  queue : Queue α
  read : List α

/-- The broadcaster with its clients. -/
structure AlertBroadcaster (C α : Type) where
  /-- Whether `_loop` is set. -/
  loop : Bool
  /-- What `call_soon_threadsafe` has handed to the loop, oldest first. -/
  ready : List α
  subscribers : Finset C
  connections : C → Connection α

/-- What a client's handler does when its await is over. -/
inductive ClientAct where
  | connect (token : String)
  /-- `queue.get()` returns. -/
  | get
  /-- `websocket.send_json(alert)` returns. -/
  | sent
  /-- What it waits for raises: the client is gone, or the handler is cancelled. -/
  | leave

inductive StreamAct (C α : Type) where
  | start
  /-- The consuming thread receives a message. -/
  | message (alert : α)
  /-- The loop runs the oldest callback, the set listing the subscribers in this order. -/
  | fanOut (order : List C)
  | client (c : C) (act : ClientAct)

variable {α : Type}

/-- `put_nowait`; for a full queue it is only logged that the alert is dropped. -/
def Connection.offer (alert : α) (conn : Connection α) : Connection α :=
  match conn.queue.putNowait alert with
  | none => conn
  | some queue => { conn with queue := queue }

namespace AlertBroadcaster

variable {C : Type} [DecidableEq C]

def init (C α : Type) : AlertBroadcaster C α where
  loop := false
  ready := []
  subscribers := ∅
  connections _ := ⟨.idle, .new maxQueuedAlertsPerClient, []⟩

def setConnection (b : AlertBroadcaster C α) (c : C) (conn : Connection α) :
    AlertBroadcaster C α :=
  { b with connections := Function.update b.connections c conn }

def subscribe (b : AlertBroadcaster C α) (c : C) : AlertBroadcaster C α :=
  { b.setConnection c { b.connections c with queue := .new maxQueuedAlertsPerClient } with
    subscribers := insert c b.subscribers }

def unsubscribe (b : AlertBroadcaster C α) (c : C) : AlertBroadcaster C α :=
  { b with subscribers := b.subscribers.erase c }

def fanOut (alert : α) (subscribers : List C) (b : AlertBroadcaster C α) :
    AlertBroadcaster C α :=
  subscribers.foldl (fun b c => b.setConnection c ((b.connections c).offer alert)) b

def onMessage (b : AlertBroadcaster C α) (alert : α) : AlertBroadcaster C α :=
  if b.loop then { b with ready := b.ready ++ [alert] } else b

def start (b : AlertBroadcaster C α) : AlertBroadcaster C α := { b with loop := true }

/-- `stream_alerts`. A token that is not valid closes the connection and nothing else. -/
def streamAlerts (valid : String → Bool) (b : AlertBroadcaster C α) (c : C) (act : ClientAct) :
    Option (AlertBroadcaster C α) :=
  let conn := b.connections c
  match conn.phase, act with
  | .idle, .connect token =>
      if valid token then
        let b := b.subscribe c
        some (b.setConnection c { b.connections c with phase := .getting })
      else some (b.setConnection c { conn with phase := .closed })
  | .getting, .get =>
      match conn.queue.getNowait with
      | none => none
      | some (alert, queue) =>
          some (b.setConnection c
            { phase := .sending, queue := queue, read := conn.read ++ [alert] })
  | .sending, .sent => some (b.setConnection c { conn with phase := .getting })
  | .getting, .leave | .sending, .leave =>
      some ((b.unsubscribe c).setConnection c { conn with phase := .closed })
  | _, _ => none

/-- `none` for what cannot happen now. -/
def step (valid : String → Bool) (b : AlertBroadcaster C α) :
    StreamAct C α → Option (AlertBroadcaster C α)
  | .start => some b.start
  | .message alert => some (b.onMessage alert)
  | .fanOut order =>
      match b.ready with
      | [] => none
      | alert :: ready =>
          if order.Nodup ∧ order.toFinset = b.subscribers then
            some ({ b with ready := ready }.fanOut alert order)
          else none
  | .client c act => b.streamAlerts valid c act

/-- After these acts, newest first; `none` if they cannot all happen. -/
def after (valid : String → Bool) : List (StreamAct C α) → Option (AlertBroadcaster C α)
  | [] => some (init C α)
  | act :: acts => (after valid acts).bind fun b => b.step valid act

end AlertBroadcaster

end HyperTrace.Api
