import HyperTrace.Proof.Transcript

/-!
# What the API calls

Approve and rollback are one shape: read, append a `dispatched` row, publish, and
append a `dispatch_failed` row when that fails. A `Dispatch` is what they differ
in, `Reads` the transcripts that determine one.
-/

namespace HyperTrace.Api

open Effect

variable {K : Type}

/-- What a request to the API dispatches. -/
structure Dispatch where
  anomalyId : Uuid
  parent : Uuid
  actionType : String
  service : String
  rollbackRef : Option Uuid
  request : Uuid → RemediationMessage

def Dispatch.row (d : Dispatch) (id : Uuid) (now : Time) : ActionRow K :=
  apiRow id (some d.anomalyId) (some d.parent) d.actionType now .dispatched d.service "approved"
    d.rollbackRef

def Dispatch.failedRow (d : Dispatch) (parent id : Uuid) (now : Time) : ActionRow K :=
  apiRow id (some d.anomalyId) (some parent) d.actionType now .dispatchFailed d.service "approved"
    none

/-- What approving the pending row dispatches. -/
def approval (row : ActionRow K) (anomalyId : Uuid) (service : Option String) : Dispatch where
  anomalyId := anomalyId
  parent := row.id
  actionType := row.actionType
  service := service.getD ""
  rollbackRef := none
  request id := approvalRequest id anomalyId (service.getD "") row.actionType

/-- What rolling back the executed row dispatches. -/
def reversal (row : ActionRow K) (anomalyId : Uuid) : Dispatch where
  anomalyId := anomalyId
  parent := row.id
  actionType := "rollback"
  service := row.target.getD ""
  rollbackRef := some row.id
  request id := rollbackRequest id anomalyId row.id

/-- The transcripts after which an approve call dispatches. -/
inductive Approves (user : User) (anomalyId : Uuid) : History K → Dispatch → Prop where
  | mk (row : ActionRow K) (service : Option String) : user.role = "sre" →
      Approves user anomalyId
        [⟨.anomalyService anomalyId, .ok service⟩,
          ⟨.latestAction anomalyId .pendingApproval, .ok (some row)⟩]
        (approval row anomalyId service)

/-- The transcripts after which a rollback call dispatches. -/
inductive Reverses (user : User) (anomalyId : Uuid) : History K → Dispatch → Prop where
  | mk (row : ActionRow K) : user.role = "sre" →
      Reverses user anomalyId [⟨.latestAction anomalyId .executed, .ok (some row)⟩]
        (reversal row anomalyId)

section Transcripts

variable (reads : History K → Dispatch → Prop)

/-- The transcript of a dispatch that was written. -/
def dispatched (h : History K) (d : Dispatch) (id : Uuid) (now : Time) : History K :=
  ⟨.insertAction (d.row id now), .ok ()⟩ :: ⟨.now, .ok now⟩ :: ⟨.uuid4, .ok id⟩ :: h

/-- What a request may call after which transcript. -/
inductive May : History K → Op K → Prop where
  | read {h : History K} {o : Op K} : acts o = false → May h o
  | insert {h : History K} {d : Dispatch} {id : Uuid} {now : Time} : reads h d →
      May (⟨.now, .ok now⟩ :: ⟨.uuid4, .ok id⟩ :: h) (.insertAction (d.row id now))
  | publish {h t : History K} {d : Dispatch} {id : Uuid} {now : Time} : reads h d →
      Attempts (.remediation (d.request id)) (dispatched h d id now) t →
      May t (.basicPublish (.remediation (d.request id)))
  | fail {h t : History K} {d : Dispatch} {id id' : Uuid} {now now' : Time} {e : Err} :
      reads h d →
      Published (.remediation (d.request id)) (dispatched h d id now) t (.error e) →
      May (⟨.now, .ok now'⟩ :: ⟨.uuid4, .ok id'⟩ :: t) (.insertAction (d.failedRow id id' now'))

/-- With which transcript a request ends, and how. -/
inductive Ends : History K → Except Err Reply → Prop where
  | undispatched {h : History K} (r : Except Err Reply) : Undispatched h → Ends h r
  | published {h t : History K} {d : Dispatch} {id : Uuid} {now : Time} : reads h d →
      Published (.remediation (d.request id)) (dispatched h d id now) t (.ok ()) →
      Ends t (.ok (.dispatched id))
  | failed {h t : History K} {d : Dispatch} {id id' : Uuid} {now now' : Time} {e e' : Err} :
      reads h d →
      Published (.remediation (d.request id)) (dispatched h d id now) t (.error e) →
      Ends (⟨.insertAction (d.failedRow id id' now'), .ok ()⟩ :: ⟨.now, .ok now'⟩ ::
        ⟨.uuid4, .ok id'⟩ :: t) (.error e')
  | raised {h : History K} {o : Op K} {e : Err} : May reads h o → isBroker o = false →
      isKubernetes o = false → Ends (⟨o, .error e⟩ :: h) (.error e)

end Transcripts

/-! ## The requests keep to it -/

variable {reads : History K → Dispatch → Prop} {h : History K}

/-- Appending a row: its three calls, any of which may raise. -/
theorem appendAction_obeys {Q : History K → Except Err Uuid → Prop}
    {anomalyId parent : Option Uuid} {actionType service mode : String} {res : ActionResult}
    {rollbackRef : Option Uuid}
    (hmay : ∀ id now, May reads (⟨.now, .ok now⟩ :: ⟨.uuid4, .ok id⟩ :: h)
      (.insertAction (apiRow id anomalyId parent actionType now res service mode rollbackRef)))
    (hok : ∀ id now, Q (⟨.insertAction
      (apiRow id anomalyId parent actionType now res service mode rollbackRef), .ok ()⟩ ::
        ⟨.now, .ok now⟩ :: ⟨.uuid4, .ok id⟩ :: h) (.ok id))
    (herr : ∀ t o e, May reads t o → isBroker o = false → isKubernetes o = false →
      Q (⟨o, .error e⟩ :: t) (.error e)) :
    (appendAction anomalyId parent actionType res service mode rollbackRef).Obeys
      (anyAnswer (May reads)) Q h := by
  unfold appendAction
  refine obeys_call (.read rfl) (fun id => ?_) fun e => herr _ _ e (.read rfl) rfl rfl
  refine obeys_call (.read rfl) (fun now => ?_) fun e => herr _ _ e (.read rfl) rfl rfl
  exact obeys_call (hmay id now) (fun _ => hok id now)
    fun e => herr _ _ e (hmay id now) rfl rfl

/-- What a transcript of a dispatch adds to the reads: an id, the time, and acts. -/
theorem mem_of_attempts {p : Payload K} {d : Dispatch} {id : Uuid} {now : Time} {t : History K}
    (ha : Attempts p (dispatched h d id now) t) {c : SysCall K} (hc : c ∈ t) :
    c ∈ h ∨ c.op = .uuid4 ∨ c.op = .now ∨ acts c.op = true := by
  have hd : c ∈ dispatched h d id now → c ∈ h ∨ c.op = .uuid4 ∨ c.op = .now ∨ acts c.op = true := by
    intro hc
    rcases List.mem_cons.mp hc with rfl | hc
    · exact Or.inr (Or.inr (Or.inr rfl))
    · rcases List.mem_cons.mp hc with rfl | hc
      · exact Or.inr (Or.inr (Or.inl rfl))
      · rcases List.mem_cons.mp hc with rfl | hc
        · exact Or.inr (Or.inl rfl)
        · exact Or.inl hc
  cases ha with
  | first => exact hd hc
  | second =>
      rcases List.mem_cons.mp hc with rfl | hc
      · exact Or.inr (Or.inr (Or.inr rfl))
      · exact hd hc

/-- From the append on, both endpoints do the same. -/
theorem dispatch_obeys {d : Dispatch} (hd : reads h d)
    (hmsg : ∀ id, (d.request id).anomalyId = some d.anomalyId) :
    (do
      let id ← appendAction (some d.anomalyId) (some d.parent) d.actionType .dispatched d.service
        "approved" d.rollbackRef
      publishOrFail id d.service d.actionType (d.request id)
      return Reply.dispatched id : Py K Reply).Obeys (anyAnswer (May reads)) (Ends reads) h := by
  refine Prog.Obeys.bind (R := Prog.post (fun t id => ∃ now, t = dispatched h d id now)
    fun t e => Ends reads t (.error e)) ?_ ?_ fun t e he => he
  · exact appendAction_obeys (fun id now => .insert hd) (fun id now => ⟨now, rfl⟩)
      fun t o e => .raised
  · intro t id hx
    obtain ⟨now, ht⟩ := hx
    rw [ht]
    refine Prog.Obeys.bind (R := Prog.post
      (fun t _ => Published (.remediation (d.request id)) (dispatched h d id now) t (.ok ()))
      fun t e => Ends reads t (.error e)) ?_ ?_ fun t e he => he
    · unfold publishOrFail
      refine Prog.Obeys.tryCatch (publish_obeys fun t ht => .publish hd ht) ?_ ?_
      · intro t a ha
        exact ha
      · intro t e he
        rw [hmsg]
        refine Prog.Obeys.bind (R := Prog.post (fun t _ => ∀ e', Ends reads t (.error e'))
          fun t e' => Ends reads t (.error e')) ?_ (fun t id' hr => hr _) fun t e' hr => hr
        exact appendAction_obeys (fun id' now' => .fail hd he) (fun id' now' e' => .failed hd he)
          fun t o e' => .raised
    · intro t a ha
      exact .published hd ha

theorem obeys_requireSre {user : User} {f : Unit → Py K Reply}
    (hf : user.role = "sre" → (f ()).Obeys (anyAnswer (May reads)) (Ends reads) []) :
    (requireSre user >>= f).Obeys (anyAnswer (May reads)) (Ends reads) [] := by
  unfold requireSre
  split
  · exact .undispatched _ Unrecorded.nil.undispatched
  · rename_i hrole
    exact hf (not_not.mp hrole)

/-- **An approve call makes only the calls it may, and ends as it should.** -/
theorem approveAction_obeys (user : User) (anomalyId : Uuid) :
    (approveAction (K := K) user anomalyId).Obeys (anyAnswer (May (Approves user anomalyId)))
      (Ends (Approves user anomalyId)) [] := by
  unfold approveAction
  refine obeys_requireSre fun hsre => ?_
  refine obeys_call (.read rfl) (fun row => ?_) fun e => .raised (.read rfl) rfl rfl
  split
  · exact .undispatched _ (Unrecorded.skip rfl .nil).undispatched
  · rename_i row
    refine obeys_call (.read rfl) (fun service => ?_) fun e => .raised (.read rfl) rfl rfl
    exact dispatch_obeys (d := approval row anomalyId service) (.mk row service hsre)
      fun id => rfl

/-- **A rollback call makes only the calls it may, and ends as it should.** -/
theorem rollbackAction_obeys (user : User) (anomalyId : Uuid) :
    (rollbackAction (K := K) user anomalyId).Obeys (anyAnswer (May (Reverses user anomalyId)))
      (Ends (Reverses user anomalyId)) [] := by
  unfold rollbackAction
  refine obeys_requireSre fun hsre => ?_
  refine obeys_call (.read rfl) (fun row => ?_) fun e => .raised (.read rfl) rfl rfl
  split
  · exact .undispatched _ (Unrecorded.skip rfl .nil).undispatched
  · rename_i row
    exact dispatch_obeys (d := reversal row anomalyId) (.mk row hsre) fun id => rfl

/-! ## The policy endpoints only read and write policies -/

theorem createPolicy_obeys {may : History K → Op K → Prop}
    (hread : ∀ t o, acts o = false → may t o) (user : User) (policy : PolicyIn K) :
    (createPolicy user policy).Obeys (anyAnswer may) (fun t _ => Idle t) [] := by
  unfold createPolicy requireSre
  split
  · exact .nil
  · refine obeys_call (hread _ _ rfl) (fun id => ?_) fun e => .cons rfl .nil
    exact obeys_call (hread _ _ rfl) (fun _ => .cons rfl (.cons rfl .nil))
      fun e => .cons rfl (.cons rfl .nil)

theorem deletePolicy_obeys {may : History K → Op K → Prop}
    (hread : ∀ t o, acts o = false → may t o) (user : User) (policyId : Uuid) :
    (deletePolicy user policyId).Obeys (anyAnswer may) (fun t _ => Idle t) [] := by
  unfold deletePolicy requireSre
  split
  · exact .nil
  · refine obeys_call (hread _ _ rfl) (fun n => ?_) fun e => .cons rfl .nil
    split <;> exact .cons rfl .nil

end HyperTrace.Api
