import HyperTrace.Adapter.Traffic
import HyperTrace.Numeric.Numeral
import HyperTrace.Proof.Wire

/-!
# What the traffic adapter publishes

In any run of the adapter, however long and whatever fails, a sample is what the last answer
of Prometheus says about its service: the last series with both labels that make up the
service has this rate. Within a poll the services come in the order of the dict, each once,
up to the first that cannot be published; nothing is made up for one that is missing.
-/

namespace HyperTrace.Adapter

open Effect Wire

variable {K : Type} [Scalar K] {B : Builtins K}

abbrev AdapterCall (K : Type) := Call (Op K) Op.Res Err

/-- The series of an answer that says that the query succeeded. -/
def SeriesOf (B : Builtins K) (body : String) (series : List (Json K)) : Prop :=
  ∃ payload status data result, JsonText.loads B.json body = some payload
    ∧ find payload "status" = .ok status ∧ isSuccess status = true
    ∧ Json.subscript payload "data" = .ok data ∧ Json.subscript data "result" = .ok result
    ∧ elements result = .ok series

/-- The service is made up of the two labels of the series, neither of them empty. -/
def Labelled (B : Builtins K) (s : Json K) (service : String) : Prop :=
  ∃ metric ns workload, s.subscript "metric" = .ok metric
    ∧ find metric "namespace" = .ok (some ns) ∧ ns.truthy = true
    ∧ find metric "app" = .ok (some workload) ∧ workload.truthy = true
    ∧ service = displayed B ns ++ "/" ++ displayed B workload

/-- The last series about the service has this rate. -/
def LastRate (B : Builtins K) (series : List (Json K)) (service : String) (rps : K) : Prop :=
  ∃ before s after, series = before ++ s :: after ∧ Labelled B s service
    ∧ readSeries B s = .ok (some (service, rps))
    ∧ ∀ s' ∈ after, ∀ rps', readSeries B s' ≠ .ok (some (service, rps'))

/-! ## Reading an answer -/

theorem labelled_of_readSeries {s : Json K} {service : String} {rps : K}
    (h : readSeries B s = .ok (some (service, rps))) : Labelled B s service := by
  obtain ⟨metric, hmetric, h⟩ := bind_ok h
  obtain ⟨ns, hns, h⟩ := bind_ok h
  obtain ⟨workload, hworkload, h⟩ := bind_ok h
  cases hns' : ns.filter Json.truthy with
  | none =>
      rw [hns'] at h
      cases h
  | some ns' =>
      cases hworkload' : workload.filter Json.truthy with
      | none =>
          rw [hns', hworkload'] at h
          cases h
      | some workload' =>
          rw [hns', hworkload'] at h
          obtain ⟨value, -, h⟩ := bind_ok h
          obtain ⟨v, -, h⟩ := bind_ok h
          obtain ⟨x, -, h⟩ := bind_ok h
          cases h
          obtain ⟨rfl, htruthy⟩ := Option.filter_eq_some_iff.mp hns'
          obtain ⟨rfl, htruthy'⟩ := Option.filter_eq_some_iff.mp hworkload'
          exact ⟨metric, ns', workload', hmetric, hns, htruthy, hworkload, htruthy', rfl⟩

/-- What the series say, those that lack a label left out. -/
def Said (B : Builtins K) : List (Json K) → List (String × K) → Prop
  | [], items => items = []
  | s :: series, items => ∃ p items', readSeries B s = .ok p ∧ Said B series items'
      ∧ items = p.toList ++ items'

theorem said_of_addRates {series : List (Json K)} {rates rates' : List (String × K)}
    (h : addRates B series rates = .ok rates') :
    ∃ items, Said B series items
      ∧ rates' = items.foldl (fun d p => Dict.set d p.1 p.2) rates := by
  induction series generalizing rates with
  | nil =>
      cases h
      exact ⟨[], rfl, rfl⟩
  | cons s series ih =>
      obtain ⟨p, hp, h⟩ := bind_ok h
      cases p with
      | none =>
          obtain ⟨items, hsaid, hfold⟩ := ih h
          exact ⟨items, ⟨none, items, hp, hsaid, rfl⟩, hfold⟩
      | some p =>
          obtain ⟨items, hsaid, hfold⟩ := ih h
          exact ⟨p :: items, ⟨some p, items, hp, hsaid, rfl⟩, hfold⟩

theorem Said.mem {series : List (Json K)} {items : List (String × K)} (h : Said B series items)
    {s : Json K} (hs : s ∈ series) {p : String × K} (hp : readSeries B s = .ok (some p)) :
    p ∈ items := by
  induction series generalizing items with
  | nil => cases hs
  | cons s' series ih =>
      obtain ⟨p', items', hp', hsaid, rfl⟩ := h
      rcases List.mem_cons.mp hs with rfl | hs
      · rw [hp] at hp'
        cases hp'
        exact List.mem_append_left _ (List.mem_singleton_self p)
      · exact List.mem_append_right _ (ih hsaid hs)

/-- An item that no later one overrides comes from a series that no later one overrides. -/
theorem Said.last {series : List (Json K)} {l r : List (String × K)} {service : String} {rps : K}
    (h : Said B series (l ++ (service, rps) :: r)) (hlast : ∀ p ∈ r, p.1 ≠ service) :
    LastRate B series service rps := by
  induction series generalizing l with
  | nil =>
      have := congrArg List.length h
      simp at this
  | cons s series ih =>
      obtain ⟨p, items, hp, hsaid, heq⟩ := h
      have hskip : ∀ l', items = l' ++ (service, rps) :: r →
          LastRate B (s :: series) service rps := by
        rintro l' rfl
        obtain ⟨before, s', after, rfl, hs', hafter⟩ := ih hsaid
        exact ⟨s :: before, s', after, rfl, hs', hafter⟩
      cases p with
      | none => exact hskip l heq.symm
      | some p =>
          cases l with
          | nil =>
              obtain ⟨rfl, rfl⟩ := List.cons.inj heq
              refine ⟨[], s, series, rfl, labelled_of_readSeries hp, hp,
                fun s' hs' rps' hread => ?_⟩
              exact hlast _ (hsaid.mem hs' hread) rfl
          | cons p' l => exact hskip l (List.cons.inj heq).2.symm

/-- **What is fetched.** -/
theorem fetchRates_ok {body : String} {rates : List (String × K)}
    (h : fetchRates B body = .ok rates) : (rates.map Prod.fst).Nodup
      ∧ ∃ series, SeriesOf B body series
        ∧ ∀ service rps, (service, rps) ∈ rates → LastRate B series service rps := by
  unfold fetchRates at h
  cases hload : JsonText.loads B.json body with
  | none =>
      rw [hload] at h
      cases h
  | some payload =>
      rw [hload] at h
      obtain ⟨status, hstatus, h⟩ := bind_ok h
      cases hsuccess : isSuccess status with
      | false =>
          simp only [hsuccess] at h
          cases h
      | true =>
          simp only [hsuccess] at h
          obtain ⟨data, hdata, h⟩ := bind_ok h
          obtain ⟨result, hresult, h⟩ := bind_ok h
          obtain ⟨series, hseries, h⟩ := bind_ok h
          obtain ⟨items, hsaid, rfl⟩ := said_of_addRates h
          refine ⟨Dict.nodup_ofItems items, series,
            ⟨payload, status, data, result, hload, hstatus, hsuccess, hdata, hresult, hseries⟩,
            fun service rps hmem => ?_⟩
          obtain ⟨l, r, rfl, hlast⟩ := Dict.mem_ofItems_iff.mp hmem
          exact hsaid.last hlast

theorem fetchRates_of_series {body : String} {series : List (Json K)}
    (h : SeriesOf B body series) : fetchRates B body = addRates B series [] := by
  obtain ⟨payload, status, data, result, hload, hstatus, hsuccess, hdata, hresult, hseries⟩ := h
  unfold fetchRates
  rw [hload]
  simp only [hstatus, hsuccess, hdata, hresult, hseries, bind, Except.bind]
  rfl

/-! ## Publishing it -/

/-- A rate was published. -/
def sampled (now : Time) (p : String × K) : AdapterCall K := ⟨.publish ⟨now, p.1, p.2⟩, .ok ()⟩

/-- Since the answer came, the rates before the sample's were published, in their order. -/
def NextRate (B : Builtins K) (h : List (AdapterCall K)) (sample : TrafficSample K) : Prop :=
  ∃ body done rest past,
    fetchRates B body = .ok (done ++ (sample.service, sample.requestsPerSecond) :: rest)
      ∧ h = (done.map (sampled sample.timestamp)).reverse
        ++ ⟨.now, .ok sample.timestamp⟩ :: ⟨.urlopen, .ok body⟩ :: past

/-- Only samples that an answer accounts for are published, whatever the calls are answered. -/
def accountedFor (B : Builtins K) : Discipline (Op K) Op.Res Err where
  may h o :=
    match o with
    | .publish sample => NextRate B h sample
    | _ => True
  gives _ _ _ := True

theorem publishRates_obeys {body : String} {now : Time} {past : List (AdapterCall K)}
    {rates : List (String × K)} : ∀ done : List (String × K),
      fetchRates B body = .ok (done ++ rates) →
      Method.Obeys (accountedFor B) (fun _ _ _ => True)
        ((done.map (sampled now)).reverse ++ ⟨.now, .ok now⟩ :: ⟨.urlopen, .ok body⟩ :: past) ⟨⟩
        (publishRates now rates) := by
  induction rates with
  | nil => exact fun _ _ => trivial
  | cons p rates ih =>
      intro done hrates
      obtain ⟨service, rps⟩ := p
      refine Method.Obeys.call (o := Op.publish ⟨now, service, rps⟩)
        ⟨body, done, rates, past, hrates, rfl⟩ ?_ fun e _ => trivial
      intro _ _
      have hnext := ih (done ++ [(service, rps)]) (by rw [hrates]; simp)
      rw [List.map_append, List.reverse_append] at hnext
      exact hnext

/-- The adapter may come to the history `t`, newest call first, with `q` left of its round. -/
def Samples (B : Builtins K) (interval : ℤ) (t : List (AdapterCall K))
    (q : Rounds (Op K) Op.Res Err PUnit Unit Empty) : Prop :=
  Reaches (fun _ _ _ => True) (main B interval) [] (main B interval () ⟨⟩) t q

/-- The sample is the next one of its poll, the only one about its service, and says what the
answer says. -/
def Sampled (B : Builtins K) (h : List (AdapterCall K)) (sample : TrafficSample K) : Prop :=
  ∃ (body : String) (series : List (Json K)) (done rest : List (String × K))
    (past : List (AdapterCall K)),
    h = (done.map (sampled sample.timestamp)).reverse
        ++ ⟨.now, .ok sample.timestamp⟩ :: ⟨.urlopen, .ok body⟩ :: past
      ∧ fetchRates B body = .ok (done ++ (sample.service, sample.requestsPerSecond) :: rest)
      ∧ (∀ p ∈ done ++ rest, p.1 ≠ sample.service) ∧ SeriesOf B body series
      ∧ LastRate B series sample.service sample.requestsPerSecond

/--
**What is published was said.** In every run of the adapter, whatever fails and however many
polls it has come through, a sample that is published is the next rate of the answer that the
poll was given, stamped with the time that was read then; the answer says that it succeeded,
and the last of its series about the service has this rate, under two labels that are not
empty; and the poll publishes no other sample of the service.
-/
theorem samples_observed {interval : ℤ} {t : List (AdapterCall K)}
    {q : Rounds (Op K) Op.Res Err PUnit Unit Empty} (h : Samples B interval t q)
    {sample : TrafficSample K} {r : Except Err Unit} {past : List (AdapterCall K)}
    (hc : ⟨.publish sample, r⟩ :: past <:+ t) : Sampled B past sample := by
  have hmono : Method.Keeps (accountedFor B) (fun _ _ => True) monotonic :=
    Method.keeps_perform (fun _ => trivial) fun _ _ _ _ => trivial
  have hsleep : ∀ d, Method.Keeps (accountedFor B) (fun _ _ => True) (call (.sleep d)) :=
    fun d => Method.keeps_perform (fun _ => trivial) fun _ _ _ _ => trivial
  have hwork : Method.Keeps (accountedFor B) (fun _ _ => True) (pollOnce B) := by
    intro h s _
    refine Method.Obeys.call (o := Op.urlopen) trivial ?_ fun e _ => trivial
    intro (body : String) _
    refine Method.obeys_ofExcept_bind (fun rates hrates => ?_) fun e _ => trivial
    refine Method.Obeys.call (o := Op.now) trivial ?_ fun e _ => trivial
    intro (now : Time) _
    exact publishRates_obeys [] hrates
  have hkept : (accountedFor B).Kept t :=
    Reaches.keeps (keeps_poll hmono hsleep hwork) h trivial (Discipline.Kept.nil _)
  have hnext : NextRate B past sample := hkept _ _ hc
  obtain ⟨body, done, rest, past', hrates, hpast⟩ := hnext
  obtain ⟨hnodup, series, hseries, hlast⟩ := fetchRates_ok hrates
  refine ⟨body, series, done, rest, past', hpast, hrates, fun p hp heq => ?_, hseries,
    hlast _ _ (List.mem_append_right _ (List.mem_cons_self ..))⟩
  rw [List.map_append, List.map_cons, List.nodup_middle, List.nodup_cons,
    ← List.map_append] at hnodup
  exact hnodup.1 (List.mem_map.mpr ⟨p, hp, heq⟩)

theorem samples_first {interval : ℤ} {body service : String} {rps : K} {rest : List (String × K)}
    (hrates : fetchRates B body = .ok ((service, rps) :: rest)) :
    ∃ q, Samples B interval [⟨.publish ⟨7, service, rps⟩, .ok ()⟩, ⟨.now, .ok (7 : ℤ)⟩,
      ⟨.urlopen, .ok body⟩, ⟨.monotonic, .ok (1 : ℤ)⟩] q := by
  apply Exists.intro
  apply Reaches.call (r := .ok (1 : ℤ)) trivial
  apply Reaches.call (r := .ok body) trivial
  simp only [Prog.bind, ExceptT.bindCont, hrates, Method.ofExcept]
  apply Reaches.call (r := .ok (7 : ℤ)) trivial
  apply Reaches.call (r := .ok ()) trivial
  exact .refl _ _

namespace Scenario

def builtins : Builtins ℚ := ⟨oneDecimal, fun text => Numeral.decimal text.toList, fun _ => ""⟩

def series (app rps : String) : Json ℚ :=
  .obj [("metric", .obj [("namespace", .str "shop"), ("app", .str app)]),
    ("value", .arr [.int 1783848600, .str rps])]

/-- Two series of one service, and between them one without an app. -/
def answer : Json ℚ :=
  .obj [("status", .str "success"), ("data", .obj [("result", .arr
    [series "web" "1.5", series "" "9.5", series "web" "2.5", series "api" "0.5"])])]

def body : String := JsonText.dumps oneDecimal Empty.elim answer

theorem series_writable (app rps : String) : (series app rps).Writable oneDecimal := by
  simp [series, JsonText.Value.Writable, JsonText.WritablePairs, JsonText.WritableItems]

theorem loads_body : JsonText.loads oneDecimal body = some answer := by
  have hwritable : answer.Writable oneDecimal := by
    simp [answer, series_writable, JsonText.Value.Writable, JsonText.WritablePairs,
      JsonText.WritableItems]
  exact JsonText.loads_dumps_json hwritable

theorem fetchRates_body :
    fetchRates builtins body = .ok [("shop/web", 5 / 2), ("shop/api", 1 / 2)] := by
  have hseries : SeriesOf builtins body
      [series "web" "1.5", series "" "9.5", series "web" "2.5", series "api" "0.5"] :=
    ⟨answer, _, _, _, loads_body, rfl, by decide, rfl, rfl, rfl⟩
  rw [fetchRates_of_series hseries]
  decide +kernel

end Scenario

open Scenario in
/-- The first poll publishes the last rate of the service, and not the one before. -/
theorem samples_observed_answer :
    Sampled builtins [⟨.now, .ok (7 : ℤ)⟩, ⟨.urlopen, .ok body⟩, ⟨.monotonic, .ok (1 : ℤ)⟩]
      ⟨7, "shop/web", 5 / 2⟩ := by
  obtain ⟨q, h⟩ : ∃ q, Samples builtins 10000000 _ q := samples_first fetchRates_body
  exact samples_observed h (List.suffix_refl _)

end HyperTrace.Adapter
