import HyperTrace.Text.JsonRoundTrip
import HyperTrace.Wire

/-!
# What is published is what is handled

Every message of every kind comes through its text: the body that `publish` writes is
decoded, and the handler finds in it the fields that the publisher has put there.
-/

namespace HyperTrace.Wire

open JsonText

variable {K : Type}

/-! ## Ids -/

theorem hexOf_append (cs ds : List Char) (n : ℕ) :
    hexOf (cs ++ ds) n = (hexOf cs n).bind (hexOf ds) := by
  induction cs generalizing n with
  | nil => rfl
  | cons c cs ih =>
      rw [List.cons_append, hexOf, hexOf]
      cases hexValue c with
      | none => rfl
      | some v => exact ih _

theorem hexOf_hexField {w n : ℕ} (h : n < 16 ^ w) : hexOf (hexField w n) 0 = some n := by
  induction w generalizing n with
  | zero =>
      have hn : n = 0 := by simpa using h
      rw [hn]
      rfl
  | succ w ih =>
      have hdiv : n / 16 < 16 ^ w := by
        rw [pow_succ] at h
        omega
      rw [hexField, hexOf_append, ih hdiv, Option.bind_some, hexOf,
        hexValue_hexDigit (Nat.mod_lt n (by decide))]
      simp only [Option.bind_eq_bind, Option.bind_some, hexOf]
      congr
      omega

theorem hexField_length (w n : ℕ) : (hexField w n).length = w := by
  induction w generalizing n with
  | zero => rfl
  | succ w ih => rw [hexField, List.length_append, ih]; rfl

theorem hexField_ne (w n : ℕ) : ∀ c ∈ hexField w n, c ≠ '-' := by
  induction w generalizing n with
  | zero => simp [hexField]
  | succ w ih =>
      intro c hc
      rw [hexField, List.mem_append, List.mem_singleton] at hc
      rcases hc with hc | rfl
      · exact ih _ c hc
      · have hall : ∀ m < 16, hexDigit m ≠ '-' := by decide
        exact hall _ (Nat.mod_lt n (by decide))

/-- **An id reads back.** -/
theorem parseUuid_text {id : Uuid} (h : id < 2 ^ 128) : parseUuid (uuidText id) = some id := by
  have hlen := hexField_length 32 id
  have hkeep : ∀ l : List Char, l.Sublist (hexField 32 id) → l.filter (· ≠ '-') = l := by
    intro l hl
    rw [List.filter_eq_self]
    intro c hc
    simpa using hexField_ne 32 id c (hl.subset hc)
  have hds : (uuidText id).toList.filter (· ≠ '-') = hexField 32 id := by
    rw [uuidText, String.toList_ofList]
    generalize hexField 32 id = ds at hkeep
    have hmid : ∀ n, ((ds.drop n).take 4).Sublist ds := fun n =>
      (List.take_sublist _ _).trans (List.drop_sublist _ _)
    have hjoin : ∀ n, (ds.drop n).take 4 ++ ds.drop (n + 4) = ds.drop n := fun n => by
      rw [← List.drop_drop, List.take_append_drop]
    simp only [List.filter_append, List.filter_cons_of_neg, ne_eq, not_true_eq_false,
      decide_false, Bool.false_eq_true, not_false_eq_true, hkeep _ (hmid _),
      hkeep _ (List.take_sublist _ _), hkeep _ (List.drop_sublist _ _)]
    rw [hjoin 16, hjoin 12, hjoin 8, List.take_append_drop]
  rw [parseUuid, hds, if_pos hlen]
  exact hexOf_hexField (by simpa using h)

/-! ## The parts of a message -/

/-- What comes out of the text of a dict. -/
abbrev decoded (v : Dict K) : Json K := v.rendered Calendar.text

theorem asTime_text {t : Time} (h : Calendar.Representable t) :
    asTime (decoded (.other t : Dict K)) = .ok t := by
  rw [asTime]
  simp only [Value.rendered, asText, bind, Except.bind, Calendar.parse_text h]
  rfl

theorem asUuid_text {id : Uuid} (h : id < 2 ^ 128) :
    asUuid (decoded (.str (uuidText id) : Dict K)) = .ok id := by
  rw [asUuid]
  simp only [Value.rendered, asText, bind, Except.bind, parseUuid_text h]
  rfl

theorem asResource_dump (r : ResourceRef) :
    asResource (decoded (resourceDump r : Dict K)) = .ok r := by
  obtain ⟨cluster, ns, node, pod, container, service⟩ := r
  cases pod <;> cases container <;> cases service <;> rfl

theorem asClassification_value (c : AnomalyClassification) :
    asClassification (decoded (.str c.value : Dict K)) = .ok c := by
  cases c <;> rfl

theorem nullable_optional {α : Type} {read : Json K → Except Err α} {write : α → Dict K}
    {o : Option α} (hnull : ∀ a, decoded (write a) ≠ .null)
    (hread : ∀ a ∈ o, read (decoded (write a)) = .ok a) :
    nullable read (decoded (optional write o)) = .ok o := by
  cases o with
  | none => rfl
  | some a =>
      rw [optional, nullable, hread a rfl]
      · rfl
      · exact hnull a

theorem subscript_of_find {d v : Json K} {key : String} (h : find d key = .ok (some v)) :
    d.subscript key = .ok v := by
  cases d with
  | obj kvs => rw [Json.subscript, Json.item, Json.get, Except.ok.inj h]
  | _ => cases h

theorem itemWith_found {α : Type} {d v : Json K} {key : String} (read : Json K → Except Err α)
    (h : find d key = .ok (some v)) : itemWith d key read = read v := by
  rw [itemWith, subscript_of_find h]
  rfl

theorem findWith_found {α : Type} {d v : Json K} {key : String} (read : Json K → Except Err α)
    (h : find d key = .ok (some v)) : findWith d key read = some <$> read v := by
  rw [findWith, h]
  rfl

/-! ## The messages -/

section

variable [Scalar K]

theorem readMetric_dump (m : Collector.MetricEvent K) :
    readMetric (decoded (metricDump m))
      = .ok ⟨m.resource, m.usage.cpuUsageCores, m.usage.memoryWorkingSetBytes⟩ := by
  rw [readMetric, itemWith_found asResource rfl, asResource_dump]
  rfl

omit [Scalar K] in
theorem readLifecycle_dump (e : Lifecycle) :
    readLifecycle (decoded (lifecycleDump e : Dict K))
      = .ok ⟨e.eventType.value, some e.resource.namespace_, e.resource.pod⟩ := by
  obtain ⟨_, ⟨_, _, _, pod, _, _⟩, _, _, _⟩ := e
  cases pod <;> rfl

theorem readCost_dump {e : Cost K} (h : Calendar.Representable e.timestamp) :
    readCost (decoded (costDump e))
      = .ok ⟨e.timestamp, e.service, e.resource, e.costPerHour, some e.cpuCores⟩ := by
  have hcores :
      nullable asNumber (decoded (optional .float e.cpuCores : Dict K)) = .ok e.cpuCores :=
    nullable_optional (by simp [Value.rendered]) fun _ _ => rfl
  rw [readCost, itemWith_found asText rfl, itemWith_found asNumber rfl, itemWith_found asTime rfl,
    itemWith_found asResource rfl, findWith_found (nullable asNumber) rfl, asTime_text h,
    asResource_dump, hcores]
  rfl

omit [Scalar K] in
theorem readTraffic_dump [IntCast K] {s : TrafficSample K}
    (h : Calendar.Representable s.timestamp) : readTraffic (decoded (trafficDump s)) = .ok s := by
  rw [readTraffic, itemWith_found asText rfl, itemWith_found asTime rfl,
    itemWith_found asNumber rfl, asTime_text h]
  rfl

omit [Scalar K] in
theorem readSecurity_dump (s : Security K) :
    readSecurity (decoded (securityDump s)) = .ok ⟨s.service, s.rule⟩ := rfl

theorem asEvidence_dump (f : Behaviour.Flag K) :
    asEvidence (decoded (evidenceDump f)) = .ok f.evidence := by
  rw [asEvidence, itemWith_found asResource rfl, asResource_dump]
  rfl

theorem readAnomaly_dump (f : Behaviour.Flag K) {id : Uuid} {now : Time} (hid : id < 2 ^ 128)
    (h : Calendar.Representable now) :
    readAnomaly (decoded (anomalyDump f id now)) = .ok (f.message id now) := by
  rw [readAnomaly, itemWith_found asUuid rfl, itemWith_found asText rfl,
    itemWith_found asNumber rfl, findWith_found asClassification rfl,
    itemWith_found asEvidence rfl, itemWith_found asText rfl, itemWith_found asTime rfl,
    asUuid_text hid, asClassification_value, asEvidence_dump, asTime_text h]
  rfl

end

/-! ## Keys that may be left out -/

theorem renderedPairs_append {D : Type} (default : D → String) (a b : List (String × Value K D)) :
    renderedPairs default (a ++ b) = renderedPairs default a ++ renderedPairs default b := by
  induction a with
  | nil => rfl
  | cons p a ih =>
      obtain ⟨key, v⟩ := p
      rw [List.cons_append, renderedPairs, renderedPairs, ih, List.cons_append]

/-- An entry is found under its key, and under no other. -/
theorem lookup_entry {α : Type} (key k : String) (write : α → Dict K) (o : Option α) :
    (renderedPairs Calendar.text (entry key write o)).lookup k
      = if k = key then o.map fun a => decoded (write a) else none := by
  cases o with
  | none => simp [entry, renderedPairs]
  | some a =>
      rw [entry, renderedPairs, renderedPairs, List.lookup_cons]
      by_cases hk : k = key
      · simp [hk]
      · have hne : (k == key) = false := by simpa using hk
        rw [hne, if_neg hk]
        rfl

/-- What an optional entry was made of is read back. -/
theorem findWith_entry {α : Type} {d : Json K} {key : String} {read : Json K → Except Err α}
    {write : α → Dict K} {o : Option α}
    (hfind : find d key = .ok (o.map fun a => decoded (write a)))
    (hread : ∀ a ∈ o, read (decoded (write a)) = .ok a) : findWith d key read = .ok o := by
  rw [findWith, hfind]
  cases o with
  | none => rfl
  | some a =>
      show some <$> read (decoded (write a)) = _
      rw [hread a rfl]
      rfl

/-- The keys of a request are told apart by their names. -/
theorem find_remediation (m : RemediationMessage) (key : String) :
    find (decoded (remediationDump m : Dict K)) key = .ok (
      let id := fun u : Uuid => decoded (.str (uuidText u) : Dict K)
      let text := fun s : String => decoded (.str s : Dict K)
      ((((((if key = "action_id" then m.actionId.map id else none).or
        (if key = "anomaly_id" then m.anomalyId.map id else none)).or
        (if key = "service" then m.service.map text else none)).or
        (if key = "action" then m.action.map text else none)).or
        (if key = "mode" then m.mode.map text else none)).or
        (if key = "target_action_id" then m.targetActionId.map id else none))) := by
  simp only [remediationDump, decoded, Value.rendered, find, renderedPairs_append,
    List.lookup_append, lookup_entry]

theorem readRemediation_dump {m : RemediationMessage} (hact : ∀ id ∈ m.actionId, id < 2 ^ 128)
    (hano : ∀ id ∈ m.anomalyId, id < 2 ^ 128) (htar : ∀ id ∈ m.targetActionId, id < 2 ^ 128) :
    readRemediation (decoded (remediationDump m : Dict K)) = .ok m := by
  have hid : ∀ {o : Option Uuid}, (∀ id ∈ o, id < 2 ^ 128) →
      ∀ id ∈ o, asUuid (decoded (.str (uuidText id) : Dict K)) = .ok id :=
    fun h id ho => asUuid_text (h id ho)
  have htext : ∀ {o : Option String}, ∀ s ∈ o, asText (decoded (.str s : Dict K)) = .ok s :=
    fun _ _ => rfl
  have huuid : ∀ (key : String) (o : Option Uuid),
      find (decoded (remediationDump m : Dict K)) key
        = .ok (o.map fun u => decoded (.str (uuidText u) : Dict K)) →
      (∀ id ∈ o, id < 2 ^ 128) →
        findWith (decoded (remediationDump m : Dict K)) key asUuid = .ok o :=
    fun _ _ hfind h => findWith_entry hfind (hid h)
  have hstr : ∀ (key : String) (o : Option String),
      find (decoded (remediationDump m : Dict K)) key
        = .ok (o.map fun s => decoded (.str s : Dict K)) →
      findWith (decoded (remediationDump m : Dict K)) key asText = .ok o :=
    fun _ _ hfind => findWith_entry hfind htext
  rw [readRemediation, huuid "action_id" m.actionId (by rw [find_remediation]; simp) hact,
    huuid "anomaly_id" m.anomalyId (by rw [find_remediation]; simp) hano,
    hstr "service" m.service (by rw [find_remediation]; simp),
    hstr "action" m.action (by rw [find_remediation]; simp),
    hstr "mode" m.mode (by rw [find_remediation]; simp),
    huuid "target_action_id" m.targetActionId (by rw [find_remediation]; simp) htar]
  rfl

/-! ## Whole messages -/

/-- The instants of a message. -/
def Sent.times : Sent K → List Time
  | .metric m => [m.timestamp]
  | .lifecycle e => [e.timestamp]
  | .cost e => [e.timestamp]
  | .traffic s => [s.timestamp]
  | .security s => [s.timestamp]
  | .anomaly _ _ now => [now]
  | .remediation _ => []

def Sent.ids : Sent K → List Uuid
  | .anomaly _ id _ => [id]
  | .remediation m => m.actionId.toList ++ m.anomalyId.toList ++ m.targetActionId.toList
  | _ => []

/--
What holds of every message: its dicts have distinct keys and its floats are written as
they are read back, its instants are those of a `datetime`, and its ids have 128 bits.
-/
structure Sendable [Scalar K] (T : FloatText K) (m : Sent K) : Prop where
  writable : m.payload.Writable T
  times : ∀ t ∈ m.times, Calendar.Representable t
  ids : ∀ id ∈ m.ids, id < 2 ^ 128

/-- A handler finds in the dict what its publisher has. -/
theorem read_payload [Scalar K] {T : FloatText K} {m : Sent K} (h : Sendable T m) :
    read m.routingKey (decoded m.payload) = .ok m.received := by
  have htime : ∀ t, m.times = [t] → Calendar.Representable t := fun t ht =>
    h.times t (ht ▸ List.mem_singleton_self t)
  cases m with
  | metric m =>
      show Received.metric <$> readMetric (decoded (metricDump m)) = _
      rw [readMetric_dump]
      rfl
  | lifecycle e =>
      show Received.lifecycle <$> readLifecycle (decoded (lifecycleDump e)) = _
      rw [readLifecycle_dump]
      rfl
  | cost e =>
      show Received.cost <$> readCost (decoded (costDump e)) = _
      rw [readCost_dump (htime _ rfl)]
      rfl
  | traffic s =>
      show Received.traffic <$> readTraffic (decoded (trafficDump s)) = _
      rw [readTraffic_dump (htime _ rfl)]
      rfl
  | security s =>
      show Received.security <$> readSecurity (decoded (securityDump s)) = _
      rw [readSecurity_dump]
      rfl
  | anomaly f id now =>
      show Received.anomaly <$> readAnomaly (decoded (anomalyDump f id now)) = _
      rw [readAnomaly_dump f (h.ids id (List.mem_singleton_self id)) (htime _ rfl)]
      rfl
  | remediation m =>
      have hid : ∀ id, id ∈ m.actionId ∨ id ∈ m.anomalyId ∨ id ∈ m.targetActionId →
          id < 2 ^ 128 := by
        intro id hid
        refine h.ids id ?_
        simp only [Sent.ids, List.mem_append, Option.mem_toList]
        tauto
      show Received.remediation <$> readRemediation (decoded (remediationDump m)) = _
      rw [readRemediation_dump (fun u hu => hid u (.inl hu)) (fun u hu => hid u (.inr (.inl hu)))
        fun u hu => hid u (.inr (.inr hu))]
      rfl

/-- The detector handles the event that the cost engine has made of a metric event. -/
theorem publishedCost_received [Scalar K] (pricing : Cost.PricingModel K) (now : Time)
    (message : Cost.MetricEvent K) :
    (publishedCost pricing now message).map (fun e => (Sent.cost e).received)
      = (Cost.handle pricing now message).map Received.cost := by
  rw [publishedCost, Cost.handle, Option.map_map, Option.map_map]
  rfl

/--
**What is published is what is handled.** The body that is written for a message of any
kind is ASCII and is decoded, and the handler bound to its routing key finds every field
it works on as the publisher had it.
-/
theorem received_as_sent [Scalar K] {T : FloatText K} {m : Sent K} (h : Sendable T m) :
    Ascii (dumps T m.payload).toList
      ∧ receive T m.routingKey (dumps T m.payload) = .ok m.received := by
  constructor
  · rw [dumps, JsonText.dumps, String.toList_ofList]
    exact ascii_write Calendar.text m.payload h.writable
  · rw [receive, dumps, loads_dumps Calendar.text h.writable]
    exact read_payload h

/-- Floats of one decimal place. -/
def oneDecimal : FloatText ℚ where
  write q :=
    let n := ⌊q * 10⌋
    intText (n / 10) ++ ['.', (n % 10).toNat.digitChar]
  read t :=
    let whole := t.takeWhile (· ≠ '.')
    let rest := (t.dropWhile (· ≠ '.')).drop 1
    intOf whole + (Nat.ofDigitChars 10 rest 0 : ℚ) / 10

/-- A flag, in a service whose name takes an escape of two surrogates. -/
def flagged : Sent ℚ :=
  .anomaly
    { service := "shop/kassé😀"
      scores := ⟨9 / 2, 15 / 2, 0⟩
      scoreConfidence := 1 / 2
      classification := .unclassified
      mature := true
      costDelta := 11 / 2
      value := 12
      bucket := "3-17"
      resource := ⟨"c", "shop", "node \"1\"", some "victim-1", none, some "victim"⟩ }
    (2 ^ 127 + 11) 1783848600123456

theorem exact_oneDecimal (n : ℕ) : oneDecimal.Exact (n / 10) := by
  have hfloor : ⌊(n / 10 : ℚ) * 10⌋ = n := by
    rw [div_mul_cancel₀ _ (by norm_num)]
    exact Int.floor_natCast n
  have hw : oneDecimal.write (n / 10)
      = Nat.toDigits 10 (n / 10) ++ ['.', (n % 10).digitChar] ++ [] := by
    simp only [oneDecimal, hfloor]
    rw [intText, if_neg (by omega), List.append_nil]
    rfl
  have hdigit : ∀ m < 10, m.digitChar.isDigit := by decide
  have hlast : ∀ c ∈ [(n % 10).digitChar], c.isDigit := by
    intro c hc
    rw [List.mem_singleton.mp hc]
    exact hdigit _ (Nat.mod_lt n (by decide))
  refine ⟨⟨_, _, _, hw, .plain (whole_toDigits _), .present (by simp) hlast, .absent, by simp⟩, ?_⟩
  have hwhole : ∀ c ∈ Nat.toDigits 10 (n / 10), decide (c ≠ '.') = true := by
    intro c hc
    have hd := Nat.isDigit_of_mem_toDigits (by decide) (by decide) hc
    rw [decide_eq_true_iff]
    rintro rfl
    cases hd
  have hback : intOf (Nat.toDigits 10 (n / 10)) = (n / 10 : ℕ) := by
    have h := intOf_intText (n / 10 : ℕ)
    rwa [intText, if_neg (by omega), Int.natAbs_natCast] at h
  rw [hw, List.append_nil]
  simp only [oneDecimal, List.takeWhile_append_of_pos hwhole, List.dropWhile_append_of_pos hwhole]
  simp only [ne_eq, not_true_eq_false, decide_false, Bool.false_eq_true, not_false_eq_true,
    List.takeWhile_cons_of_neg, List.dropWhile_cons_of_neg, List.append_nil, hback,
    List.drop_succ_cons, List.drop_zero,
    Nat.ofDigitChars_cons_digitChar_of_lt_ten (Nat.mod_lt n (by decide)), Nat.ofDigitChars_nil]
  have hn : (n : ℚ) = 10 * (n / 10 : ℕ) + (n % 10 : ℕ) := by
    exact_mod_cast (Nat.div_add_mod n 10).symm
  rw [hn, Int.cast_natCast, Nat.mul_zero, Nat.zero_add]
  ring

theorem sendable_flagged : Sendable oneDecimal flagged where
  writable := by
    have hexact : ∀ (n : ℕ) (q : ℚ), q = n / 10 → oneDecimal.Exact q := by
      rintro n q rfl
      exact exact_oneDecimal n
    have hpeak : oneDecimal.Exact (Scores.peak (⟨9 / 2, 15 / 2, 0⟩ : Scores ℚ)) :=
      hexact 75 _ (by norm_num [Scores.peak])
    have h₁ : oneDecimal.Exact (12 : ℚ) := hexact 120 _ (by norm_num)
    have h₂ : oneDecimal.Exact (9 / 2 : ℚ) := hexact 45 _ (by norm_num)
    have h₃ : oneDecimal.Exact (15 / 2 : ℚ) := hexact 75 _ (by norm_num)
    have h₄ : oneDecimal.Exact (0 : ℚ) := hexact 0 _ (by norm_num)
    have h₅ : oneDecimal.Exact (2⁻¹ : ℚ) := hexact 5 _ (by norm_num)
    have h₆ : oneDecimal.Exact (11 / 2 : ℚ) := hexact 55 _ (by norm_num)
    simp [flagged, Sent.payload, anomalyDump, evidenceDump, resourceDump, optional,
      Value.Writable, WritablePairs, hpeak, h₁, h₂, h₃, h₄, h₅, h₆]
  times := by decide
  ids := by decide

theorem received_as_sent_flagged :
    Ascii (dumps oneDecimal flagged.payload).toList
      ∧ receive oneDecimal flagged.routingKey (dumps oneDecimal flagged.payload)
        = .ok flagged.received :=
  received_as_sent sendable_flagged

end HyperTrace.Wire
