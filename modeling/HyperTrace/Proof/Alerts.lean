import HyperTrace.Api.AlertStream

/-!
# Does every client get its alerts?

Clients share the broadcaster and nothing else: each has a queue of its own, a fan-out
offers the alert to one queue after the other, and a full one only loses what is its own.
Two facts say so of every run. What a client has read and what is in its queue are
exactly the alerts of the fan-outs that found it subscribed and its queue with room, in
their order. And a run seen from one client is a run of the broadcaster with that client
alone, so nothing that another client does, or fails to do, can make a difference.
-/

namespace HyperTrace.Api

open Effect

variable {C α : Type} [DecidableEq C]

/-- What a client has read, followed by what is in its queue. -/
def Connection.received (conn : Connection α) : List α := conn.read ++ conn.queue.items

namespace AlertBroadcaster

variable {valid : String → Bool} {b b' : AlertBroadcaster C α} {c d : C}

@[simp] theorem setConnection_self (b : AlertBroadcaster C α) (c : C) (conn : Connection α) :
    (b.setConnection c conn).connections c = conn := Function.update_self ..

@[simp] theorem setConnection_ne (h : c ≠ d) (conn : Connection α) :
    (b.setConnection d conn).connections c = b.connections c := Function.update_of_ne h ..

@[simp] theorem setConnection_subscribers (conn : Connection α) :
    (b.setConnection c conn).subscribers = b.subscribers := rfl

@[simp] theorem subscribe_self : (b.subscribe c).connections c
    = { b.connections c with queue := .new maxQueuedAlertsPerClient } := setConnection_self ..

/-! ## One step, seen from one client -/

/-- What a fan-out does. -/
theorem fanOut_connections (alert : α) (order : List C) (b : AlertBroadcaster C α)
    (hnodup : order.Nodup) (c : C) :
    (b.fanOut alert order).connections c
      = if c ∈ order then (b.connections c).offer alert else b.connections c := by
  induction order generalizing b with
  | nil => rfl
  | cons d order ih =>
      obtain ⟨hd, hnodup⟩ := List.nodup_cons.mp hnodup
      unfold fanOut at ih ⊢
      rw [List.foldl_cons, ih _ hnodup]
      by_cases hc : c = d
      · subst hc
        rw [if_neg hd, if_pos (List.mem_cons_self ..), setConnection_self]
      · rw [setConnection_ne hc]
        simp only [List.mem_cons, hc, false_or]

theorem fanOut_rest (alert : α) (order : List C) (b : AlertBroadcaster C α) :
    (b.fanOut alert order).loop = b.loop ∧ (b.fanOut alert order).ready = b.ready
      ∧ (b.fanOut alert order).subscribers = b.subscribers := by
  induction order generalizing b with
  | nil => exact ⟨rfl, rfl, rfl⟩
  | cons d order ih => exact ih _

/-- The five things that a handler does. -/
inductive Served (valid : String → Bool) (b : AlertBroadcaster C α) (c : C) :
    ClientAct → AlertBroadcaster C α → Prop where
  | accepted {token : String} (hphase : (b.connections c).phase = .idle)
      (htoken : valid token = true) :
      Served valid b c (.connect token) ((b.subscribe c).setConnection c
        { phase := .getting
          queue := .new maxQueuedAlertsPerClient
          read := (b.connections c).read })
  | refused {token : String} (hphase : (b.connections c).phase = .idle)
      (htoken : valid token = false) :
      Served valid b c (.connect token)
        (b.setConnection c { b.connections c with phase := .closed })
  | got {alert : α} {queue : Queue α} (hphase : (b.connections c).phase = .getting)
      (hget : (b.connections c).queue.getNowait = some (alert, queue)) :
      Served valid b c .get (b.setConnection c
        { phase := .sending
          queue := queue
          read := (b.connections c).read ++ [alert] })
  | sent (hphase : (b.connections c).phase = .sending) :
      Served valid b c .sent (b.setConnection c { b.connections c with phase := .getting })
  | left (hphase : (b.connections c).phase = .getting ∨ (b.connections c).phase = .sending) :
      Served valid b c .leave
        ((b.unsubscribe c).setConnection c { b.connections c with phase := .closed })

theorem served_of_streamAlerts {act : ClientAct} (h : b.streamAlerts valid c act = some b') :
    Served valid b c act b' := by
  unfold streamAlerts at h
  cases hphase : (b.connections c).phase with
  | idle =>
      cases act with
      | connect token =>
          cases htoken : valid token with
          | true =>
              simp only [hphase, htoken, if_true] at h
              obtain rfl := Option.some.inj h
              rw [subscribe_self]
              exact .accepted hphase htoken
          | false =>
              simp only [hphase, htoken, Bool.false_eq_true, if_false] at h
              obtain rfl := Option.some.inj h
              exact .refused hphase htoken
      | _ => simp [hphase] at h
  | getting =>
      cases act with
      | get =>
          cases hget : (b.connections c).queue.getNowait with
          | none => simp [hphase, hget] at h
          | some got =>
              simp only [hphase, hget] at h
              obtain rfl := Option.some.inj h
              exact .got hphase hget
      | leave =>
          simp only [hphase] at h
          obtain rfl := Option.some.inj h
          exact .left (.inl hphase)
      | _ => simp [hphase] at h
  | sending =>
      cases act with
      | sent =>
          simp only [hphase] at h
          obtain rfl := Option.some.inj h
          exact .sent hphase
      | leave =>
          simp only [hphase] at h
          obtain rfl := Option.some.inj h
          exact .left (.inr hphase)
      | _ => simp [hphase] at h
  | closed => cases act <;> simp [hphase] at h

/-- The handler of another client leaves this one alone. -/
theorem Served.other {act : ClientAct} (h : Served valid b d act b') (hne : c ≠ d) :
    b'.connections c = b.connections c ∧ (c ∈ b'.subscribers ↔ c ∈ b.subscribers) := by
  cases h with
  | accepted _ _ =>
      refine ⟨?_, ?_⟩
      · rw [setConnection_ne hne]
        exact setConnection_ne hne _
      · simp [subscribe, hne]
  | refused _ _ => exact ⟨setConnection_ne hne _, Iff.rfl⟩
  | got _ _ => exact ⟨setConnection_ne hne _, Iff.rfl⟩
  | sent _ => exact ⟨setConnection_ne hne _, Iff.rfl⟩
  | left _ => exact ⟨setConnection_ne hne _, by simp [unsubscribe, hne]⟩

/-- A fan-out can happen if there is something to fan out, and only then. -/
theorem step_fanOut {order : List C} (h : b.step valid (.fanOut order) = some b') :
    ∃ alert ready, b.ready = alert :: ready ∧ order.Nodup ∧ (∀ c, c ∈ order ↔ c ∈ b.subscribers)
      ∧ b' = { b with ready := ready }.fanOut alert order := by
  unfold step at h
  cases hready : b.ready with
  | nil =>
      simp only [hready] at h
      cases h
  | cons alert ready =>
      simp only [hready] at h
      obtain ⟨⟨hnodup, hset⟩, h⟩ := Option.ite_none_right_eq_some.mp h
      refine ⟨alert, ready, rfl, hnodup, fun c => ?_, (Option.some.inj h).symm⟩
      rw [← hset, List.mem_toFinset]

/-- No client can hold up a fan-out. -/
theorem step_fanOut_of {order : List C} {alert : α} {ready : List α}
    (hready : b.ready = alert :: ready) (hnodup : order.Nodup)
    (hmem : ∀ c, c ∈ order ↔ c ∈ b.subscribers) :
    b.step valid (.fanOut order) = some ({ b with ready := ready }.fanOut alert order) := by
  have hset : order.toFinset = b.subscribers := Finset.ext fun c => by
    rw [List.mem_toFinset, hmem]
  unfold step
  simp only [hready]
  rw [if_pos ⟨hnodup, hset⟩]

/-! ## What a client receives -/

/-- The alert that is fanned out by this act, if the broadcaster is as `p` says. -/
def fannedBy (p : AlertBroadcaster C α → Bool) (b : AlertBroadcaster C α) :
    StreamAct C α → List α
  | .fanOut _ => if p b then b.ready.take 1 else []
  | _ => []

/-- The alerts that were fanned out when the broadcaster was as `p` says, oldest first. -/
def fannedWhen (valid : String → Bool) (p : AlertBroadcaster C α → Bool) :
    List (StreamAct C α) → List α
  | [] => []
  | act :: acts =>
      match after valid acts with
      | none => []
      | some b => fannedWhen valid p acts ++ fannedBy p b act

/-- The alerts fanned out while the client was subscribed. -/
def fannedOut (valid : String → Bool) (c : C) : List (StreamAct C α) → List α :=
  fannedWhen valid fun b => c ∈ b.subscribers

/-- Those of them that did not find its queue full. -/
def fannedToRoom (valid : String → Bool) (c : C) : List (StreamAct C α) → List α :=
  fannedWhen valid fun b => c ∈ b.subscribers
    ∧ (b.connections c).queue.items.length < maxQueuedAlertsPerClient

theorem fannedWhen_sublist {p q : AlertBroadcaster C α → Bool} (hpq : ∀ b, p b → q b)
    (acts : List (StreamAct C α)) :
    (fannedWhen valid p acts).Sublist (fannedWhen valid q acts) := by
  induction acts with
  | nil => exact List.Sublist.refl _
  | cons act acts ih =>
      unfold fannedWhen
      cases after valid acts with
      | none => exact List.Sublist.refl _
      | some b =>
          refine ih.append ?_
          cases act with
          | fanOut order =>
              unfold fannedBy
              by_cases hp : p b = true
              · rw [if_pos hp, if_pos (hpq b hp)]
              · rw [if_neg hp]
                exact List.nil_sublist _
          | _ => exact List.Sublist.refl _

/-- How things stand with a client that has received `got`. -/
structure Kept (subscribed : Prop) (conn : Connection α) (got : List α) : Prop where
  received : conn.received = got
  bounded : conn.queue.Bounded maxQueuedAlertsPerClient
  subscribed : subscribed ↔ conn.phase = .getting ∨ conn.phase = .sending
  fresh : conn.phase = .idle → conn.received = []

omit [DecidableEq C] in
theorem Kept.init : Kept (c ∈ (init C α).subscribers) ((init C α).connections c) [] :=
  ⟨rfl, .new _, by simp [AlertBroadcaster.init], fun _ => rfl⟩

/-- An alert is received exactly if there is room for it. -/
theorem Kept.offer {subscribed : Prop} {conn : Connection α} {got : List α}
    (h : Kept subscribed conn got) (hsub : subscribed) (alert : α) :
    Kept subscribed (conn.offer alert)
      (got ++ if conn.queue.items.length < maxQueuedAlertsPerClient then [alert] else []) := by
  have hphase : conn.phase ≠ .idle := fun hidle => by
    rcases h.subscribed.mp hsub with hp | hp <;> rw [hidle] at hp <;> cases hp
  have hfull := h.bounded.full_iff (by decide)
  have hle := h.bounded.length
  unfold Connection.offer
  cases hput : conn.queue.putNowait alert with
  | none =>
      rw [Queue.putNowait_eq_none, hfull] at hput
      rw [if_neg (by omega), List.append_nil]
      exact h
  | some queue =>
      have hbounded := h.bounded.put (by decide) hput
      obtain ⟨hroom, rfl⟩ := Queue.putNowait_eq_some.mp hput
      have hne : conn.queue.items.length ≠ maxQueuedAlertsPerClient := fun heq => by
        rw [hfull.mpr heq] at hroom
        cases hroom
      rw [if_pos (by omega)]
      refine ⟨?_, hbounded, h.subscribed, fun hidle => absurd hidle hphase⟩
      rw [← h.received]
      exact (List.append_assoc ..).symm

/-- Its own handler adds nothing to what a client has received, and takes nothing from it. -/
theorem Kept.served {act : ClientAct} {got : List α} (hs : Served valid b c act b')
    (h : Kept (c ∈ b.subscribers) (b.connections c) got) :
    Kept (c ∈ b'.subscribers) (b'.connections c) got := by
  cases hs with
  | accepted hphase _ =>
      have hnil : (b.connections c).received = [] := h.fresh hphase
      have hread := (List.append_eq_nil_iff.mp hnil).1
      rw [setConnection_self]
      refine ⟨?_, .new _, by simp [subscribe], fun hidle => by cases hidle⟩
      rw [← h.received, hnil, Connection.received, hread]
      rfl
  | refused hphase _ =>
      have hout : c ∉ b.subscribers := by simp [h.subscribed, hphase]
      rw [setConnection_self]
      exact ⟨h.received, h.bounded, by simp [hout], fun hidle => by cases hidle⟩
  | got hphase hget =>
      have hin : c ∈ b.subscribers := h.subscribed.mpr (.inl hphase)
      rw [setConnection_self]
      refine ⟨?_, h.bounded.get hget, by simp [hin], fun hidle => by cases hidle⟩
      rw [← h.received, Connection.received, Connection.received,
        (Queue.getNowait_eq_some.mp hget).1, List.append_assoc, List.singleton_append]
  | sent hphase =>
      have hin : c ∈ b.subscribers := h.subscribed.mpr (.inr hphase)
      rw [setConnection_self]
      exact ⟨h.received, h.bounded, by simp [hin], fun hidle => by cases hidle⟩
  | left hphase =>
      rw [setConnection_self]
      exact ⟨h.received, h.bounded, by simp [unsubscribe], fun hidle => by cases hidle⟩

theorem Kept.step {act : StreamAct C α} {got : List α} (hstep : b.step valid act = some b')
    (h : Kept (c ∈ b.subscribers) (b.connections c) got) :
    Kept (c ∈ b'.subscribers) (b'.connections c)
      (got ++ fannedBy (fun b => c ∈ b.subscribers
        ∧ (b.connections c).queue.items.length < maxQueuedAlertsPerClient) b act) := by
  cases act with
  | start =>
      obtain rfl := Option.some.inj hstep
      exact (List.append_nil got).symm ▸ h
  | message alert =>
      obtain rfl := Option.some.inj hstep
      refine (List.append_nil got).symm ▸ ?_
      unfold onMessage
      split <;> exact h
  | fanOut order =>
      obtain ⟨alert, ready, hready, hnodup, hmem, rfl⟩ := step_fanOut hstep
      obtain ⟨_, _, hsubs⟩ := fanOut_rest alert order { b with ready := ready }
      rw [hsubs, fanOut_connections alert order _ hnodup, fannedBy, hready]
      by_cases hin : c ∈ b.subscribers
      · rw [if_pos ((hmem c).mpr hin)]
        have := h.offer hin alert
        simpa [hin] using this
      · rw [if_neg fun hc => hin ((hmem c).mp hc)]
        simpa [hin] using h
  | client d act =>
      have hs := served_of_streamAlerts hstep
      refine (List.append_nil got).symm ▸ ?_
      by_cases hd : c = d
      · subst hd
        exact h.served hs
      · obtain ⟨hconn, hsub⟩ := hs.other hd
        rw [hconn]
        exact ⟨h.received, h.bounded, hsub.trans h.subscribed, h.fresh⟩

/-- **What a client has received**, in every run. -/
theorem kept_of_after {acts : List (StreamAct C α)} (h : after valid acts = some b) (c : C) :
    Kept (c ∈ b.subscribers) (b.connections c) (fannedToRoom valid c acts) := by
  induction acts generalizing b with
  | nil =>
      obtain rfl := Option.some.inj h
      exact .init
  | cons act acts ih =>
      obtain ⟨before, hbefore, hstep⟩ := Option.bind_eq_some_iff.mp h
      have hkept := (ih hbefore).step hstep
      rw [fannedToRoom, fannedWhen, hbefore]
      exact hkept

/-! ## What a client sees of the others -/

/-- The broadcaster as one client sees it. -/
def alone (c : C) (b : AlertBroadcaster C α) : AlertBroadcaster Unit α where
  loop := b.loop
  ready := b.ready
  subscribers := if c ∈ b.subscribers then {()} else ∅
  connections _ := b.connections c

end AlertBroadcaster

/-- An act as one client sees it. -/
inductive OwnAct (α : Type) where
  | start
  | message (alert : α)
  | fanOut
  | client (act : ClientAct)

/-- Of the acts of others a client sees nothing, and of a fan-out not who is served, and when. -/
def StreamAct.own (c : C) : StreamAct C α → Option (OwnAct α)
  | .start => some .start
  | .message alert => some (.message alert)
  | .fanOut _ => some .fanOut
  | .client d act => if d = c then some (.client act) else none

/-- The one order in which a set of one client can be listed. -/
def AlertBroadcaster.listing (b : AlertBroadcaster Unit α) : List Unit :=
  if () ∈ b.subscribers then [()] else []

/-- The same act where there is only this client. -/
def OwnAct.on (b : AlertBroadcaster Unit α) : OwnAct α → StreamAct Unit α
  | .start => .start
  | .message alert => .message alert
  | .fanOut => .fanOut b.listing
  | .client act => .client () act

namespace AlertBroadcaster

variable {valid : String → Bool} {b b' : AlertBroadcaster C α} {c d : C}

/-- The broadcaster with a single client, after these acts, newest first. -/
def afterAlone (valid : String → Bool) : List (OwnAct α) → Option (AlertBroadcaster Unit α)
  | [] => some (init Unit α)
  | act :: acts => (afterAlone valid acts).bind fun b => b.step valid (act.on b)

theorem ext_unit {v v' : AlertBroadcaster Unit α} (hloop : v.loop = v'.loop)
    (hready : v.ready = v'.ready) (hconn : v.connections () = v'.connections ())
    (hsubs : () ∈ v.subscribers ↔ () ∈ v'.subscribers) : v = v' := by
  obtain ⟨loop, ready, subscribers, connections⟩ := v
  obtain ⟨loop', ready', subscribers', connections'⟩ := v'
  obtain rfl : subscribers = subscribers' := Finset.ext fun _ => hsubs
  obtain rfl : connections = connections' := funext fun _ => hconn
  simp only at hloop hready
  rw [hloop, hready]

@[simp] theorem alone_connections (u : Unit) :
    (b.alone c).connections u = b.connections c := rfl

@[simp] theorem mem_alone : () ∈ (b.alone c).subscribers ↔ c ∈ b.subscribers := by
  unfold alone
  split <;> simp [*]

theorem mem_listing {v : AlertBroadcaster Unit α} : () ∈ v.listing ↔ () ∈ v.subscribers := by
  unfold listing
  split <;> simp [*]

theorem nodup_listing (v : AlertBroadcaster Unit α) : v.listing.Nodup := by
  unfold listing
  split <;> simp

@[simp] theorem alone_setConnection (conn : Connection α) :
    (b.setConnection c conn).alone c = (b.alone c).setConnection () conn :=
  ext_unit rfl rfl (by simp) (by simp)

@[simp] theorem alone_subscribe : (b.subscribe c).alone c = (b.alone c).subscribe () :=
  ext_unit rfl rfl (by simp) (by rw [mem_alone]; simp [subscribe])

@[simp] theorem alone_unsubscribe : (b.unsubscribe c).alone c = (b.alone c).unsubscribe () :=
  ext_unit rfl rfl rfl (by rw [mem_alone]; simp [unsubscribe])

@[simp] theorem alone_onMessage {alert : α} :
    (b.onMessage alert).alone c = (b.alone c).onMessage alert := by
  cases hloop : b.loop <;> simp [onMessage, alone, hloop]

/-- Its handler does the same where there is no other client. -/
theorem Served.alone {act : ClientAct} (h : Served valid b c act b') :
    (b.alone c).streamAlerts valid () act = some (b'.alone c) := by
  cases h with
  | accepted hphase htoken => simp [streamAlerts, hphase, htoken]
  | refused hphase htoken => simp [streamAlerts, hphase, htoken]
  | got hphase hget => simp [streamAlerts, hphase, hget]
  | sent hphase => simp [streamAlerts, hphase]
  | left hphase => rcases hphase with hphase | hphase <;> simp [streamAlerts, hphase]

theorem Served.rest {act : ClientAct} (h : Served valid b d act b') :
    b'.loop = b.loop ∧ b'.ready = b.ready := by
  cases h <;> exact ⟨rfl, rfl⟩

/-- **A client sees nothing of another.** -/
theorem alone_step_other {act : StreamAct C α} (h : b.step valid act = some b')
    (hother : act.own c = none) : b'.alone c = b.alone c := by
  cases act with
  | client d act =>
      have hne : c ≠ d := by
        intro hd
        simp [StreamAct.own, hd] at hother
      have hs := served_of_streamAlerts h
      obtain ⟨hconn, hsubs⟩ := hs.other hne
      obtain ⟨hloop, hready⟩ := hs.rest
      exact ext_unit hloop hready hconn (by rw [mem_alone, mem_alone, hsubs])
  | _ => cases hother

/-- **What concerns a client happens to it as if there were no other.** -/
theorem alone_step_own {act : StreamAct C α} {own : OwnAct α} (h : b.step valid act = some b')
    (hown : act.own c = some own) :
    (b.alone c).step valid (own.on (b.alone c)) = some (b'.alone c) := by
  cases act with
  | start =>
      obtain rfl := Option.some.inj hown
      obtain rfl := Option.some.inj h
      rfl
  | message alert =>
      obtain rfl := Option.some.inj hown
      obtain rfl := Option.some.inj h
      exact congrArg some alone_onMessage.symm
  | fanOut order =>
      obtain rfl := Option.some.inj hown
      obtain ⟨alert, ready, hready, hnodup, hmem, rfl⟩ := step_fanOut h
      obtain ⟨hloop, hrest, hsubs⟩ := fanOut_rest alert order { b with ready := ready }
      obtain ⟨hloop', hrest', hsubs'⟩ :=
        fanOut_rest alert (b.alone c).listing { b.alone c with ready := ready }
      have hself : () ∈ (b.alone c).listing ↔ c ∈ order := by
        rw [mem_listing, mem_alone, hmem]
      refine (step_fanOut_of (by exact hready) (nodup_listing _) fun _ => mem_listing).trans
        (congrArg some (ext_unit ?_ ?_ ?_ ?_))
      · exact hloop'.trans hloop.symm
      · exact hrest'.trans hrest.symm
      · rw [alone_connections, fanOut_connections alert order _ hnodup,
          fanOut_connections alert _ _ (nodup_listing _)]
        simp only [hself]
        rfl
      · rw [mem_alone, hsubs', hsubs]
        exact mem_alone
  | client d act =>
      obtain ⟨rfl, hact⟩ := Option.ite_none_right_eq_some.mp hown
      cases hact
      exact (served_of_streamAlerts h).alone

/-- **A run seen from one client is a run with that client alone.** -/
theorem afterAlone_own {acts : List (StreamAct C α)} (h : after valid acts = some b) (c : C) :
    afterAlone valid (acts.filterMap (StreamAct.own c)) = some (b.alone c) := by
  induction acts generalizing b with
  | nil =>
      obtain rfl := Option.some.inj h
      exact congrArg some (ext_unit rfl rfl rfl (by rw [mem_alone]; simp [init]))
  | cons act acts ih =>
      obtain ⟨before, hbefore, hstep⟩ := Option.bind_eq_some_iff.mp h
      cases hown : act.own c with
      | none =>
          rw [List.filterMap_cons_none hown, alone_step_other hstep hown]
          exact ih hbefore
      | some own =>
          rw [List.filterMap_cons_some hown]
          exact Option.bind_eq_some_iff.mpr ⟨_, ih hbefore, alone_step_own hstep hown⟩

/-- What a client may rely on, after these acts. -/
structure Isolated (valid : String → Bool) (acts : List (StreamAct C α))
    (b : AlertBroadcaster C α) (c : C) : Prop where
  /-- It receives what is fanned out while it is subscribed, in order, each alert once. -/
  ordered : (b.connections c).received.Sublist (fannedOut valid c acts)
  once : (fannedOut valid c acts).Nodup → (b.connections c).received.Nodup
  bounded : (b.connections c).queue.items.length ≤ maxQueuedAlertsPerClient
  /-- What it misses has found its own queue full. -/
  missing : (b.connections c).received = fannedToRoom valid c acts
  /-- In any other run with the same acts of its own, it ends up the same. -/
  unaffected : ∀ acts' b', after valid acts' = some b' →
    acts'.filterMap (StreamAct.own c) = acts.filterMap (StreamAct.own c) →
      b'.connections c = b.connections c
  /-- Nobody can hold up the fan-out. -/
  unhindered : b.ready ≠ [] → ∃ order, (b.step valid (.fanOut order)).isSome

/-- **Every client is isolated from the others**, whatever happens in whatever order. -/
theorem alerts_isolated {acts : List (StreamAct C α)} (h : after valid acts = some b) (c : C) :
    Isolated valid acts b c := by
  have hkept := kept_of_after h c
  have hsub : (b.connections c).received.Sublist (fannedOut valid c acts) := by
    rw [hkept.received]
    refine fannedWhen_sublist (fun b hb => ?_) acts
    simp only [decide_eq_true_eq] at hb ⊢
    exact hb.1
  refine ⟨hsub, hsub.nodup, hkept.bounded.length, hkept.received, fun acts' b' h' hown => ?_,
    fun hready => ?_⟩
  · have halone := afterAlone_own h c
    rw [← hown, afterAlone_own h' c] at halone
    exact congrFun (congrArg connections (Option.some.inj halone)) ()
  · obtain ⟨alert, ready, hready⟩ := List.exists_cons_of_ne_nil hready
    refine ⟨b.subscribers.toList, ?_⟩
    rw [step_fanOut_of hready b.subscribers.nodup_toList fun _ => Finset.mem_toList]
    rfl

/-! Two clients, of which the second reads nothing and leaves. -/

def twoTabs : List (StreamAct ℕ String) :=
  [.client 0 .get, .fanOut [0], .client 1 .leave, .fanOut [1, 0], .client 1 (.connect "jwt"),
    .client 0 (.connect "jwt"), .message "a2", .message "a1", .start]

theorem alerts_isolated_twoTabs :
    ∃ b, after (fun token => token = "jwt") twoTabs = some b
      ∧ Isolated (fun token => token = "jwt") twoTabs b 0
      ∧ (b.connections 0).received = ["a1", "a2"] := by
  obtain ⟨b, hb⟩ := Option.isSome_iff_exists.mp
    (show (after (fun token => token = "jwt") twoTabs).isSome by decide)
  refine ⟨b, hb, alerts_isolated hb 0, ?_⟩
  have hreceived : (after (fun token => token = "jwt") twoTabs).map
      (fun b => (b.connections 0).received) = some ["a1", "a2"] := by decide
  rw [hb] at hreceived
  exact Option.some.inj hreceived

end AlertBroadcaster

end HyperTrace.Api
