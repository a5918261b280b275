import HyperTrace.Proof.Provenance

/-!
# One delivery at a time

A consumer is busy from the moment it takes a delivery until it acks or nacks it,
and takes no other one meanwhile. So of all the threads that handle deliveries of
one consumer, at most one has not settled its own yet.
-/

namespace HyperTrace.Proof

open HyperTrace Effect

variable {K : Type} [Scalar K]

variable {cfg : Settings} {P : SysConfig K → SysAct K → Prop} {w : World K} {c : SysConfig K}

omit [Scalar K] in
/-- Where the handler never settles, the callback does, for its own consumer and that once. -/
theorem settle_of_delivers {own consumer : Consumer} {may : History K → Op K → Prop}
    {ends : History K → Except Err Unit → Prop} {t : History K} {ack : Bool}
    (hmay : ∀ o, may t o → isSettle o = false)
    (h : Delivers own may ends t (.settle consumer ack)) : consumer = own ∧ Unsettled t := by
  cases h with
  | handle ho => cases hmay _ ho
  | settle _ hu => exact ⟨rfl, hu⟩

/-- A thread settles its own consumer's delivery, and that once. -/
theorem settle_of_calls {tag : Tag K} {t : History K} {consumer : Consumer} {ack : Bool}
    (h : Calls cfg tag t (.settle consumer ack)) : consumerOf tag = some consumer ∧ Unsettled t := by
  cases tag with
  | traffic m =>
      obtain ⟨rfl, hu⟩ := settle_of_delivers (fun _ => isSettle_of_mayTraffic) h
      exact ⟨rfl, hu⟩
  | cost m =>
      obtain ⟨rfl, hu⟩ := settle_of_delivers (fun _ => isSettle_of_mayCost) h
      exact ⟨rfl, hu⟩
  | lifecycle m =>
      obtain ⟨rfl, hu⟩ := settle_of_delivers (fun _ => isSettle_of_read) h
      exact ⟨rfl, hu⟩
  | security m =>
      obtain ⟨rfl, hu⟩ := settle_of_delivers (fun _ => isSettle_of_read) h
      exact ⟨rfl, hu⟩
  | anomaly m =>
      obtain ⟨rfl, hu⟩ := settle_of_delivers (fun _ => isSettle_of_mayDecide) h
      exact ⟨rfl, hu⟩
  | execute m =>
      obtain ⟨rfl, hu⟩ := settle_of_delivers (fun _ => isSettle_of_mayExecute) h
      exact ⟨rfl, hu⟩
  -- the API has no delivery to settle
  | approve user a =>
      cases h with
      | read ho => cases ho
  | rollback user a =>
      cases h with
      | read ho => cases ho
  | createPolicy user p => cases h
  | deletePolicy user id => cases h

/-- A thread that has a delivery to settle keeps its consumer busy. -/
theorem busy_of_unsettled (h : (system cfg).Run P w c) {i : Nat}
    {t : Thread (Op K) Op.Res Err (Tag K) Reply} {consumer : Consumer}
    (ht : c.threads[i]? = some t) (hc : consumerOf t.tag = some consumer)
    (hu : Unsettled (hist c.trace i)) : c.world.busy consumer = some i := by
  -- induction on the run; the consumer is taken at the start and freed by a settle
  induction h generalizing i t with
  | init => simp [System.init] at ht
  | @tail c c' a hr hp hs ih =>
      rcases System.step_cases hs with ⟨x, w', tag, p, _, hst, rfl⟩ |
        ⟨j, x, tag, o, k, _, hj, rfl⟩ | ⟨v, _, rfl⟩
      · obtain ⟨hstarts, _⟩ := start_starts hst
        dsimp only at ht hu ⊢
        rw [hstarts.busy]
        rw [List.getElem?_append] at ht
        split at ht
        · have hbusy := ih ht hc hu
          rw [if_neg, hbusy]
          intro htag
          rw [hstarts.free consumer htag] at hbusy
          cases hbusy
        · rename_i hge
          have hi := (List.getElem?_eq_some_iff.mp ht).1
          have ht' : t = ⟨tag, p⟩ := by simpa using List.mem_of_getElem? ht
          rw [if_pos (by rw [← hc, ht'])]
          simp only [List.length_singleton] at hi
          exact congrArg some (by omega)
      · have hlt := (List.getElem?_eq_some_iff.mp hj).1
        have hch := exec_changes c.world o x
        -- is it this thread that steps, or another one?
        by_cases hij : j = i
        · subst hij
          rw [List.getElem?_set_self hlt] at ht
          cases ht
          have hu' : Unsettled (⟨o, ((system cfg).exec c.world o x).1⟩ :: hist c.trace j) := by
            simpa [hist, Event.call] using hu
          have hbusy := ih hj hc fun call hcall => hu' call (List.mem_cons_of_mem _ hcall)
          rcases hch.busy consumer with hsame | ⟨ack, rfl⟩
          · exact hsame.trans hbusy
          · cases hu' _ (List.mem_cons_self ..)
        · rw [List.getElem?_set_ne hij] at ht
          rw [hist_cons_ne (by exact hij)] at hu
          have hbusy := ih ht hc hu
          rcases hch.busy consumer with hsame | ⟨ack, rfl⟩
          · exact hsame.trans hbusy
          · -- whoever settles this consumer's delivery is the thread that keeps it busy
            obtain ⟨htag, hu'⟩ := settle_of_calls (calls_of_next hr hj)
            have hbusy' := ih hj htag hu'
            rw [hbusy] at hbusy'
            exact absurd (Option.some.inj hbusy').symm hij
      · have hsame : (c.world.env v).busy = c.world.busy := by cases v <;> rfl
        show (c.world.env v).busy consumer = some i
        rw [hsame]
        exact ih ht hc hu

/-- **A consumer handles one delivery at a time.** -/
theorem one_delivery (h : (system cfg).Run P w c) {i j : Nat}
    {t u : Thread (Op K) Op.Res Err (Tag K) Reply} {consumer : Consumer}
    (ht : c.threads[i]? = some t) (hu : c.threads[j]? = some u)
    (hct : consumerOf t.tag = some consumer) (hcu : consumerOf u.tag = some consumer)
    (hi : Unsettled (hist c.trace i)) (hj : Unsettled (hist c.trace j)) : i = j := by
  have hbusy := busy_of_unsettled h ht hct hi
  rw [busy_of_unsettled h hu hcu hj] at hbusy
  exact (Option.some.inj hbusy).symm

end HyperTrace.Proof
