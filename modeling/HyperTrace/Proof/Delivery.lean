import HyperTrace.Effect.Only
import HyperTrace.Proof.Consumer
import HyperTrace.Proof.Publisher
import HyperTrace.Proof.Wire

/-!
# From one broker connection to the other

The texts of `Wire` between the publisher and the consumer loop: what a handler is called
with is what some service has published, and a delivery that the loop drops without
calling its handler was published by no service.
-/

namespace HyperTrace.Rabbit

open Effect

variable {Body V : Type} {loads : Body → Except Err V}

/-- The delivery just taken holds the message. -/
def Handed (loads : Body → Except Err V) (h : List (RabbitCall Body V)) (message : V) : Prop :=
  ∃ ch tag body s, loads body = .ok message
    ∧ h = ⟨.nextDelivery ch, .ok (some ⟨tag, body⟩)⟩ :: s

/-- The handler is called with what was just delivered. -/
def mayHandle (loads : Body → Except Err V) (h : List (RabbitCall Body V)) :
    Rabbit.Op Body V → Prop
  | .onMessage message => Handed loads h message
  | _ => True

def handing (loads : Body → Except Err V) : Discipline (Rabbit.Op Body V) Rabbit.Op.Res Err where
  may := mayHandle loads
  gives := answers

/-- The calls that are not the handler's. -/
def isOwn : Rabbit.Op Body V → Prop
  | .onMessage _ => False
  | _ => True

theorem mayHandle_of_isOwn {t : List (RabbitCall Body V)} {o : Rabbit.Op Body V} (ho : isOwn o) :
    (handing loads).may t o := by
  cases o with
  | onMessage _ => exact ho.elim
  | _ => trivial

open Method in
theorem setUp_own (url queue : String) (routingKeys : List String) :
    Only isOwn (setUp url queue routingKeys : ClientMethod Body V Channel) := by
  have hclosed : Only isOwn (connectionClosed : ClientMethod Body V Bool) := by
    refine only_get.bind fun client => ?_
    split
    · exact only_pure _
    · exact only_perform trivial
  have hopen : Only isOwn (openChannel url : ClientMethod Body V Unit) :=
    (only_perform trivial).bind fun _ => (only_modify _).bind fun _ =>
      (only_perform trivial).bind fun _ => (only_modify _).bind fun _ => only_perform trivial
  have hensure : Only isOwn (ensureChannel url : ClientMethod Body V Channel) := by
    refine hclosed.bind fun closed => (Only.ite hopen (only_pure _)).bind fun _ =>
      only_get.bind fun client => ?_
    split
    · exact only_pure _
    · exact only_throw _
  exact hensure.bind fun ch => (only_perform trivial).bind fun _ =>
    (only_forM (fun _ => only_perform trivial) routingKeys).bind fun _ =>
      (only_perform trivial).bind fun _ => (only_perform trivial).bind fun _ => only_pure _

open Method in
theorem discardConnection_own : Only isOwn (discardConnection : ClientMethod Body V Unit) := by
  refine Only.bind (Only.tryCatch (only_get.bind fun client => ?_) fun _ => only_pure _)
    fun _ => only_set _
  split
  · refine (only_perform trivial).bind fun (isOpen : Bool) => ?_
    exact Only.ite (only_perform trivial) (only_pure _)
  · exact only_pure _

open Method in
theorem connectionError_own (delay : Nat) (e : Err) :
    Only isOwn (connectionError delay e : ClientMethod Body V (Round Point Unit)) := by
  have hrest : Only isOwn (do
      discardConnection
      let stopping : Bool ← call .stopping
      if stopping then
        return .done ()
      call (.sleep delay)
      return .again (.connecting (min (delay * 2) 30))
      : ClientMethod Body V (Round Point Unit)) := by
    refine discardConnection_own.bind fun _ => (only_perform trivial).bind fun (stop : Bool) => ?_
    exact Only.ite (only_pure _) ((only_perform trivial).bind fun _ => only_pure _)
  rw [connectionError]
  split
  · exact only_throw e
  · exact hrest

open Method in
/-- The callback hands over what decoding made of the delivery, and nothing else. -/
theorem callback_minds {h : List (RabbitCall Body V)} {client : Client} (ch : Channel)
    (delivery : Delivery Body) :
    Minds (handing loads) (⟨.nextDelivery ch, .ok (some delivery)⟩ :: h) client
      (callback loads ch delivery) := by
  refine Minds.bind (Minds.tryCatch ?_ fun t e s => trivial) fun t processed s => ?_
  · cases hloads : loads delivery.body with
    | error e => exact trivial
    | ok message =>
        exact Minds.call ⟨ch, delivery.deliveryTag, delivery.body, h, hloads, rfl⟩ fun _ => trivial
  · refine Only.minds ?_ (fun t o ho => mayHandle_of_isOwn ho) _ _
    exact Only.ite (only_perform trivial) (only_perform trivial)

open Method in
/-- **The loop calls its handler with a decoded delivery only.** -/
theorem consume_minds (url queue : String) (routingKeys : List String)
    (h : List (RabbitCall Body V)) (point : Point) (client : Client) :
    Minds (handing loads) h client (consume loads url queue routingKeys point) := by
  have hown : ∀ (t : List (RabbitCall Body V)) (o : Rabbit.Op Body V), isOwn o →
      (handing loads).may t o := fun t o ho => mayHandle_of_isOwn ho
  cases point with
  | connecting delay =>
      refine Only.minds (Only.tryCatch ?_ fun e => connectionError_own delay e) hown h client
      exact (setUp_own url queue routingKeys).bind fun _ => only_pure _
  | consuming ch =>
      refine Minds.tryCatch ?_ fun t e s => (connectionError_own 1 e).minds hown t s
      refine Minds.call (o := Rabbit.Op.nextDelivery ch) trivial
        fun (delivery : Option (Delivery Body)) => ?_
      cases delivery with
      | none => trivial
      | some delivery => exact (callback_minds ch delivery).bind fun _ _ _ => trivial

theorem handed_of_consumes {url queue : String} {routingKeys : List String} {client : Client}
    {t : List (RabbitCall Body V)}
    {q : Rounds (Rabbit.Op Body V) Rabbit.Op.Res Err Client Point Unit}
    (h : Consumes loads url queue routingKeys client t q) {message : V} {r : Except Err Unit}
    {s : List (RabbitCall Body V)} (hs : ⟨.onMessage message, r⟩ :: s <:+ t) :
    Handed loads s message :=
  Reaches.minds (D := handing loads) (fun h l s => consume_minds url queue routingKeys h l s) h
    (consume_minds url queue routingKeys _ _ _) (Discipline.Kept.nil _) _ s hs

/-- What is nacked could not be decoded, or the handler raised. -/
theorem nacked_of_consumes {url queue : String} {routingKeys : List String} {client : Client}
    {t : List (RabbitCall Body V)}
    {q : Rounds (Rabbit.Op Body V) Rabbit.Op.Res Err Client Point Unit}
    (hclient : client.connection.isSome = true → client.channel.isSome = true)
    (h : Consumes loads url queue routingKeys client t q) {ch : Channel} {tag : Nat}
    {requeue : Bool} {r : Except Err Unit} {s : List (RabbitCall Body V)}
    (hs : ⟨.basicNack ch tag requeue, r⟩ :: s <:+ t) :
    undecodable loads ch tag s ∨ ∃ e, decoded loads ch tag (.error e) s := by
  have hstart : consumeInv ([] : List (RabbitCall Body V)) (.connecting 1) client :=
    .fresh (fun c hc => by cases hc) rfl (fun hcon => ⟨hcon, hclient hcon⟩)
      fun _ c hc => by cases hc
  have hkept := (Reaches.kept (D := protocol loads)
    (fun h l s hinv => obeys_consume hinv url queue routingKeys) h
    (obeys_consume hstart url queue routingKeys) (Discipline.Kept.nil _)).1
  exact (hkept _ _ hs).2

/-- A publish makes no write but of its own body, under its own routing key. -/
def writesOnly (routingKey : String) (body : Body) : PublisherOp Body V → Prop
  | .inl _ => True
  | .inr write => write.routingKey = routingKey ∧ write.body = body

open Method in
theorem attempts_only (url routingKey : String) {write : Channel → Write Body} {body : Body}
    (hwrite : ∀ ch, (write ch).routingKey = routingKey ∧ (write ch).body = body) :
    ∀ l : List Nat, Only (writesOnly (V := V) routingKey body) (attempts url write l)
  | [] => only_pure _
  | attempt :: rest => by
      have hinl : ∀ {α : Type} (m : ClientMethod Body V α),
          Only (writesOnly routingKey body) (m.inl : PublisherMethod Body V α) :=
        fun m => only_inl (fun _ => trivial) m
      have honce : Only (writesOnly (V := V) routingKey body) (writeOnce url write) :=
        (hinl _).bind fun ch => only_perform (hwrite ch)
      have hcatch : ∀ e, Only (writesOnly (V := V) routingKey body) (do
          if e ≠ .amqp then
            throw e
          discardConnection.inl
          if attempt = 2 then
            throw e
          pure false : PublisherMethod Body V Bool) := by
        intro e
        refine Only.ite (only_throw e) ((hinl _).bind fun _ => ?_)
        exact Only.ite (only_throw e) (only_pure _)
      refine (Only.tryCatch (honce.bind fun _ => only_pure _) hcatch).bind fun written => ?_
      exact Only.ite (only_pure _) (attempts_only url routingKey hwrite rest)

open Method in
theorem publish_only {dumps : V → Except Err Body} {payload : V} {body : Body}
    (url routingKey : String) (hbody : dumps payload = .ok body) :
    Only (writesOnly routingKey body) (publish dumps url routingKey payload) := by
  let write : Channel → Write Body := fun ch =>
    ⟨ch, exchangeName, routingKey, body, ⟨"application/json", 2⟩⟩
  have hwrite : ∀ ch, (write ch).routingKey = routingKey ∧ (write ch).body = body :=
    fun _ => ⟨rfl, rfl⟩
  rw [publish, hbody]
  exact attempts_only url routingKey hwrite [1, 2]

end HyperTrace.Rabbit

namespace HyperTrace.Wire

open Effect Rabbit JsonText

variable {K : Type} [Scalar K] {T : FloatText K}

/-- `json.loads`, which raises `JSONDecodeError` on what is no JSON text. -/
def loadsBody (T : FloatText K) (body : String) : Except Err (Json K) :=
  match JsonText.loads T body with
  | some d => .ok d
  | none => .error .valueError

def dumpsBody (T : FloatText K) (payload : Dict K) : Except Err String := .ok (dumps T payload)

/-- A publisher that has sent these messages, the newest first, with the record of its calls. -/
inductive Sends (T : FloatText K) (url : String) :
    List (Sent K) → PublisherRecord String (Dict K) → Client → Prop where
  | new : Sends T url [] [] Client.new
  | send {ms : List (Sent K)} {l : PublisherRecord String (Dict K)} {client client' : Client}
      {r : Except Err Unit} (m : Sent K) (outcomes : Nat → Outcome String (Dict K)) :
      Sendable T m → Sends T url ms l client →
      (Rabbit.publish (dumpsBody T) url m.routingKey m.payload client).run answer outcomes ()
        = (.ok (r, client'), ()) →
      Sends T url (m :: ms)
        ((Rabbit.publish (dumpsBody T) url m.routingKey m.payload client).made answer outcomes () l)
        client'

/-- What a publisher has written is the text of one of its messages. -/
theorem Sends.write {url : String} {ms : List (Sent K)} {l : PublisherRecord String (Dict K)}
    {client : Client} (h : Sends T url ms l client) {write : Write String}
    (hw : ∃ e ∈ l, e.op = .inr write) :
    ∃ m ∈ ms, Sendable T m ∧ write.routingKey = m.routingKey ∧ write.body = dumps T m.payload := by
  induction h with
  | new =>
      obtain ⟨e, he, -⟩ := hw
      cases he
  | @send ms l client client' r m outcomes hm _ _ ih =>
      obtain ⟨e, he, hop⟩ := hw
      have hbody : dumpsBody T m.payload = .ok (dumps T m.payload) := rfl
      rcases (publish_only url m.routingKey hbody client).made outcomes () l e he with hl | hwrite
      · obtain ⟨m', hm', hs⟩ := ih ⟨e, hl, hop⟩
        exact ⟨m', List.mem_cons_of_mem _ hm', hs⟩
      · rw [hop] at hwrite
        exact ⟨m, List.mem_cons_self .., hm, hwrite.1, hwrite.2⟩

/-- The broker brings a queue bound to the key nothing but what publishers wrote under it. -/
def Brings (T : FloatText K) (routingKey : String) (t : List (RabbitCall String (Json K))) : Prop :=
  ∀ ch delivery, ⟨.nextDelivery ch, .ok (some delivery)⟩ ∈ t →
    ∃ url ms l client write, Sends T url ms l client ∧ (∃ e ∈ l, e.op = .inr write)
      ∧ write.routingKey = routingKey ∧ write.body = delivery.body

/-- What is delivered is decoded, and read as it was sent. -/
theorem Brings.read {routingKey : String} {t : List (RabbitCall String (Json K))}
    (h : Brings T routingKey t) {ch : Channel} {delivery : Delivery String}
    (hd : ⟨.nextDelivery ch, .ok (some delivery)⟩ ∈ t) :
    ∃ m : Sent K, Sendable T m ∧ m.routingKey = routingKey ∧ delivery.body = dumps T m.payload
      ∧ loadsBody T delivery.body = .ok (decoded m.payload) := by
  obtain ⟨url, ms, l, client, write, hsends, hw, hkey, hbody⟩ := h ch delivery hd
  obtain ⟨m, -, hm, hkey', hbody'⟩ := hsends.write hw
  refine ⟨m, hm, hkey'.symm.trans hkey, hbody.symm.trans hbody', ?_⟩
  rw [← hbody, hbody', loadsBody, dumps, loads_dumps Calendar.text hm.writable]

/--
**What is handled is what was sent.** A consumer whose queue only gets what publishers have
written under its routing key calls its handler with one dict after the other, and each of
them is the decoding of the message of some publisher, which the delivery just before it
had the text of, and is read as that message. No delivery is dropped but one on which the
handler raised.
-/
theorem handled_as_sent {url queue routingKey : String} {client : Client}
    {t : List (RabbitCall String (Json K))}
    {q : Rounds (Rabbit.Op String (Json K)) Rabbit.Op.Res Err Client Point Unit}
    (hclient : client.connection.isSome = true → client.channel.isSome = true)
    (h : Consumes (loadsBody T) url queue [routingKey] client t q) (hb : Brings T routingKey t) :
    (∀ d r s, ⟨.onMessage d, r⟩ :: s <:+ t → ∃ m : Sent K, ∃ ch tag s',
        Sendable T m ∧ m.routingKey = routingKey
        ∧ s = ⟨.nextDelivery ch, .ok (some ⟨tag, dumps T m.payload⟩)⟩ :: s'
        ∧ d = decoded m.payload ∧ read routingKey d = .ok m.received)
      ∧ ∀ ch tag requeue r s, ⟨.basicNack ch tag requeue, r⟩ :: s <:+ t →
        ∃ d e s', s = ⟨.onMessage d, .error e⟩ :: s' := by
  constructor
  · intro d r s hs
    obtain ⟨ch, tag, body, s', hloads, rfl⟩ := handed_of_consumes h hs
    obtain ⟨m, hm, hkey, rfl, hread⟩ := hb.read
      (hs.subset (List.mem_cons_of_mem _ (List.mem_cons_self ..)))
    rw [hread] at hloads
    cases hloads
    exact ⟨m, ch, tag, s', hm, hkey, rfl, rfl, hkey ▸ read_payload hm⟩
  · intro ch tag requeue r s hs
    rcases nacked_of_consumes hclient h hs with ⟨body, e, s', hloads, rfl⟩ | ⟨e, hdec⟩
    · -- what was delivered can be decoded
      obtain ⟨m, -, -, -, hread⟩ := hb.read
        (hs.subset (List.mem_cons_of_mem _ (List.mem_cons_self ..)))
      rw [hread] at hloads
      cases hloads
    · obtain ⟨body, message, s', -, rfl⟩ := hdec
      exact ⟨message, e, _, rfl⟩

/-- How calls end while nothing goes wrong. -/
def steady : (o : PublisherOp String (Dict ℚ)) → Except Err (PublisherRes o)
  | .inl (.isClosed _) => .ok false
  | .inl (.isOpen _) => .ok true
  | .inl (.blockingConnection _) => .ok (8 : Nat)
  | .inl (.channel _) => .ok (9 : Nat)
  | .inl (.exchangeDeclare _ _ _ _) => .ok ()
  | .inr _ => .ok ()
  | _ => .error .amqp

theorem endsIn_steady (o : PublisherOp String (Dict ℚ)) : endsIn o (steady o) := by
  cases o with
  | inr write =>
      intro e he
      cases he
  | inl o =>
      cases o with
      | isOpen _ | close _ => trivial
      | isClosed _ | blockingConnection _ | channel _ | exchangeDeclare _ _ _ _ =>
          intro e he
          cases he
      | _ =>
          intro e he
          cases he
          rfl

/-- The publisher that has sent the flag. -/
def sentFlag : PublisherRecord String (Dict ℚ) :=
  (Rabbit.publish (dumpsBody oneDecimal) "" flagged.routingKey flagged.payload Client.new).made
    answer (fun _ => ⟨steady, endsIn_steady⟩) () []

theorem sends_flag : Sends oneDecimal "" [flagged] sentFlag ⟨some 8, some 9⟩ :=
  .send flagged _ sendable_flagged .new rfl

/-- A consumer whose handler raises on the first delivery. -/
def refused (body : String) (message : Json ℚ) : List (RabbitCall String (Json ℚ)) :=
  [⟨.basicNack 0 7 false, .ok ()⟩, ⟨.onMessage message, .error .db⟩,
    ⟨.nextDelivery 0, .ok (some ⟨7, body⟩)⟩, ⟨.basicConsume 0 "q", .ok ()⟩,
    ⟨.basicQos 0 20, .ok ()⟩, ⟨.queueBind 0 exchangeName "q" routingKeyAnomaly, .ok ()⟩,
    ⟨.queueDeclare 0 "q" true, .ok ()⟩, ⟨.isClosed 0, .ok false⟩]

theorem consumes_refused {loads : String → Except Err (Json ℚ)} {body : String} {message : Json ℚ}
    (hloads : loads body = .ok message) :
    Consumes loads "" "q" [routingKeyAnomaly] ⟨some 0, some 0⟩ (refused body message)
      (.ret (.ok (.again (.consuming 0)), ⟨some 0, some 0⟩)) := by
  have hcallback : Rabbit.callback loads 0 ⟨7, body⟩
      = Rabbit.callback (fun _ => .ok message) 0 ⟨7, body⟩ := by
    simp only [Rabbit.callback, hloads]
  refine .call (r := .ok false) ⟨false, rfl, fun hne => by cases hne⟩ ?_
  refine .call (r := .ok ()) (answers_ok rfl) (.call (r := .ok ()) (answers_ok rfl) ?_)
  refine .call (r := .ok ()) (answers_ok rfl) (.call (r := .ok ()) (answers_ok rfl) (.again ?_))
  refine .call (r := .ok (some ⟨7, body⟩)) (answers_ok rfl) ?_
  show Reaches answers _ _ ((do
    try
      Rabbit.callback loads 0 ⟨7, body⟩
      pure (.again (.consuming 0))
    catch e => connectionError 1 e : ClientMethod String (Json ℚ) (Round Point Unit))
      ⟨some 0, some 0⟩) _ _
  rw [hcallback]
  exact .call (r := .error .db) trivial (.call (r := .ok ()) (answers_ok rfl) (.refl _ _))

/-- The decision engine's consumer that is handed the flag. -/
abbrev refusedFlag : List (RabbitCall String (Json ℚ)) :=
  refused (dumps oneDecimal flagged.payload) (decoded flagged.payload)

theorem consumes_refusedFlag : Consumes (loadsBody oneDecimal) "" "q" [routingKeyAnomaly]
    ⟨some 0, some 0⟩ refusedFlag (.ret (.ok (.again (.consuming 0)), ⟨some 0, some 0⟩)) :=
  consumes_refused (by rw [loadsBody, dumps, loads_dumps Calendar.text sendable_flagged.writable])

theorem brings_flag : Brings oneDecimal routingKeyAnomaly refusedFlag := by
  intro ch delivery hd
  have hdelivery : delivery.body = dumps oneDecimal flagged.payload := by
    simp only [refusedFlag, refused, List.mem_cons, List.not_mem_nil, or_false] at hd
    rcases hd with h | h | h | h | h | h | h | h
    case inr.inr.inl =>
      cases h
      rfl
    all_goals cases h
  exact ⟨"", [flagged], sentFlag, _, ⟨9, exchangeName, routingKeyAnomaly,
    dumps oneDecimal flagged.payload, ⟨"application/json", 2⟩⟩, sends_flag,
    ⟨_, .head _, rfl⟩, rfl, hdelivery.symm⟩

theorem handled_as_sent_flag : ∃ m : Sent ℚ, Sendable oneDecimal m
    ∧ m.routingKey = routingKeyAnomaly ∧ decoded flagged.payload = decoded m.payload
    ∧ read routingKeyAnomaly (decoded flagged.payload) = .ok m.received := by
  obtain ⟨m, -, -, -, hm, hkey, -, hdecoded, hread⟩ :=
    (handled_as_sent (fun _ => rfl) consumes_refusedFlag brings_flag).1 (decoded flagged.payload)
      (.error .db) (refusedFlag.drop 2) (List.suffix_cons _ _)
  exact ⟨m, hm, hkey, hdecoded, hread⟩

end HyperTrace.Wire
