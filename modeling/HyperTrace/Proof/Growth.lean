import HyperTrace.Proof.TrafficKnown
import HyperTrace.Proof.Variation

/-!
# Growth that traffic explains

For readings whose rise comes with a rise of the traffic there is a verdict of its
own, and the decision engine lets it stand. The detector chooses that verdict where it
flags a reading, and it flags only what it finds decoupled from the traffic. A
traffic z-score is below 1 there, and it would have to be at least 3: so the verdict
is given to nothing, in no run and from no state.
-/

namespace HyperTrace.Proof

open HyperTrace Effect Behaviour

variable {K : Type} [Scalar K]

/-! ## What is expected of growth -/

/-- The reading stands out of a mature bucket, while the latest traffic z-score explains it. -/
def grown (w : World K) (m : CostEvent K) : Bool :=
  let stats := BucketStats.fromDict (profileOf w m.service metricCost (bucketKey m.timestamp))
  decide (minSamplesForDetection ≤ stats.n) && decide (costZThreshold < stats.zScore m.costPerHour)
    && (w.trafficZ m.service).any fun z => decide (trafficZComovement ≤ z)

/-- The reading of a service that is judged in this event: its thread, and whether it has grown. -/
def growth (service : String) (e : SysEvent K) : Option (Nat × Bool) :=
  match e.tag, e.op with
  | .cost m, .getTrafficZ _ => if m.service = service then some (e.tid, grown e.before m) else none
  | _, _ => none

/-- The readings of a service, newest first. -/
def growths (service : String) (tr : List (SysEvent K)) : List (Nat × Bool) :=
  tr.filterMap (growth service)

omit [Scalar K] in
/-- The decision engine keeps the verdict of the message, and does nothing about it. -/
def KeepsVerdict (c : SysConfig K) (ma : AnomalyMessage K) : Prop :=
  ∀ e ∈ c.trace, e.tag = .anomaly ma →
    (∀ row, e.op ≠ .insertAction row) ∧ (∀ p, e.op ≠ .basicPublish p)
      ∧ ∀ id cl ev, e.op = .updateAnomaly id cl ev → cl = .legitimateTrafficGrowth

omit [Scalar K] in
/-- An anomaly of the service is recorded and published as traffic growth, and stays that. -/
def GetsVerdict (c : SysConfig K) (service : String) : Prop :=
  ∃ a ma, a.service = service ∧ a.classification = .legitimateTrafficGrowth
    ∧ (∃ e ∈ c.trace, e.op = .insertAnomaly a)
    ∧ ma.id = a.id ∧ ma.classification = some .legitimateTrafficGrowth
    ∧ (∃ e ∈ c.trace, e.op = .basicPublish (.anomaly ma)) ∧ KeepsVerdict c ma

/-! ## What has grown is not flagged -/

theorem not_qualifies_of_grown {w : World K} {m : CostEvent K} (h : grown w m = true) :
    qualifiesIn w m = false := by
  simp only [grown, Bool.and_eq_true] at h
  obtain ⟨_, hexplains⟩ := h
  obtain ⟨z, hz, hle⟩ := (Option.any_eq_true ..).mp hexplains
  refine Bool.eq_false_iff.mpr fun hq => ?_
  obtain ⟨_, z', hz', hlt⟩ := qualifiesIn_iff.mp hq
  rw [hz] at hz'
  obtain rfl := Option.some.inj hz'
  have hceiling : (trafficZCeiling : K) < trafficZComovement := by
    norm_num [trafficZCeiling, trafficZComovement]
  exact absurd (of_decide_eq_true hle) (not_le.mpr (hlt.trans hceiling))

variable {cfg : Settings} {P : SysConfig K → SysAct K → Prop} {w : World K} {c : SysConfig K}

/-- Before a reading is judged, its thread has looked up no traffic. -/
theorem unlooked (h : (system cfg).Run P w c) {g : SysEvent K} {pre : List (SysEvent K)}
    (hg : g :: pre <:+ c.trace) {m : CostEvent K} (hlooks : Looks g m) :
    ∀ call ∈ hist pre g.tid, isLook call.op = false := by
  obtain ⟨htag, hlook⟩ := hlooks
  have hcalls := calls_of_suffix h hg
  rw [htag] at hcalls
  generalize g.op = o at hcalls hlook
  generalize hist pre g.tid = t at hcalls
  cases hcalls with
  | settle => cases hlook
  | handle hmay =>
      cases hmay with
      | early _ ho =>
          cases o with
          | getTrafficZ s => cases ho
          | _ => cases hlook
      | look hearly =>
          intro call hcall
          rcases List.mem_cons.mp hcall with rfl | hcall
          · rfl
          · have hop := hearly call hcall
            cases ho : call.op with
            | getTrafficZ s => rw [ho] at hop; cases hop
            | _ => rfl
      | _ => cases hlook

/-- A thread judges its reading once. -/
theorem looks_unique (h : (system cfg).Run P w c) {g g' : SysEvent K} {pre pre' : List (SysEvent K)}
    (hg : g :: pre <:+ c.trace) (hg' : g' :: pre' <:+ c.trace) {m m' : CostEvent K}
    (hlooks : Looks g m) (hlooks' : Looks g' m') (hi : g'.tid = g.tid) : g' = g := by
  have hin : ∀ {e : SysEvent K} {pre tr : List (SysEvent K)}, e :: pre <:+ tr →
      e.call ∈ hist tr e.tid := fun hsuf =>
    mem_hist.mpr ⟨_, hsuf.subset (List.mem_cons_self ..), rfl, rfl⟩
  rcases suffix_cases hg hg' with ⟨rfl, _⟩ | hlt | hlt
  · rfl
  · have hnone := unlooked h hg' hlooks' _ (hi ▸ hin hlt)
    rw [show isLook g.call.op = true from hlooks.2] at hnone
    cases hnone
  · have hnone := unlooked h hg hlooks _ (hi ▸ hin hlt)
    rw [show isLook g'.call.op = true from hlooks'.2] at hnone
    cases hnone

/-- A reading that is to be flagged qualified where its thread judged it. -/
theorem judged_looked (h : (system cfg).Run P w c) {pre : List (SysEvent K)}
    (hpre : pre <:+ c.trace) {i : Nat} {m : CostEvent K} {l t : History K}
    (htag : ∀ e ∈ pre, e.tid = i → e.tag = .cost m) (hh : hist pre i = l ++ t) {flag : Bool}
    (hj : Judged m t flag) (hflag : flag = true) :
    ∃ g pre', g :: pre' <:+ c.trace ∧ g.tid = i ∧ Looks g m ∧ qualifiesIn g.before m = true := by
  cases hj with
  | @mk t₀ p tz row now hearly hcounts =>
      have hsplit : hist pre i = (l ++ [⟨.saveProfile m.service metricCost row, .ok ()⟩,
          ⟨.now, .ok now⟩]) ++ ⟨.getTrafficZ m.service, .ok tz⟩ ::
            ⟨.loadProfile m.service metricCost, .ok p⟩ :: t₀ := by
        rw [hh]
        simp [looked]
      obtain ⟨g, pre', x, hg, hi, hcall, hpre', hx⟩ := answered_after h hpre hsplit
      have hgtag := htag g (hg.subset (List.mem_cons_self ..)) hi
      have hlook : isLook g.op = true := by
        rw [show g.op = _ from congrArg Call.op hcall]
        rfl
      refine ⟨g, pre', hg.trans hpre, hi, ⟨hgtag, hlook⟩, ?_⟩
      have hp : profileOf g.before m.service metricCost = p := by
        have hquiet : ∀ d ∈ looked m p tz t₀, savesCost d.op = false := looked_savesCost hearly
        refine profile_kept h (hg.trans hpre) hgtag (l := []) (hi ▸ hpre') ?_
        rw [hi, hpre']
        exact fun d hd => hquiet d (List.mem_cons_of_mem _ hd)
      have htz : g.before.trafficZ m.service = tz := Except.ok.inj (congrArg Prod.fst hx)
      have hdwelt : dwellSamples ≤ dwelt m p tz := of_decide_eq_true hflag
      rw [qualifiesIn, hp, htz]
      unfold dwelt at hdwelt
      split at hdwelt
      · assumption
      · cases hdwelt

/-- **Who records or publishes an anomaly has judged its reading to qualify.** -/
theorem flagged_looked (h : (system cfg).Run P w c) {e : SysEvent K} {pre : List (SysEvent K)}
    (he : e :: pre <:+ c.trace)
    (hop : (∃ row, e.op = .insertAnomaly row) ∨ ∃ ma, e.op = .basicPublish (.anomaly ma)) :
    ∃ g pre' m, g :: pre' <:+ c.trace ∧ g.tid = e.tid ∧ Looks g m
      ∧ qualifiesIn g.before m = true := by
  have hpre : pre <:+ c.trace := (List.suffix_cons e pre).trans he
  have hsame : ∀ m, e.tag = .cost m → ∀ e' ∈ pre, e'.tid = e.tid → e'.tag = .cost m := by
    intro m htag e' he' hi
    rw [← htag]
    exact h.tag_eq (hpre.subset he') (he.subset (List.mem_cons_self ..)) hi
  have hdetects : detects e.op = true := by
    obtain ⟨row, ho⟩ | ⟨ma, ho⟩ := hop <;> rw [ho] <;> rfl
  rcases detecting (calls_of_suffix h he) hdetects with ⟨m, _, hmay⟩ | ⟨m, htag, hmay⟩
  · generalize e.op = o at hmay hop
    obtain ⟨row, rfl⟩ | ⟨ma, rfl⟩ := hop <;> cases hmay
  · have hfound := fun l t hh (hj : Judged m t true) =>
      judged_looked h hpre (l := l) (hsame m htag) hh hj rfl
    generalize e.op = o at hmay hop
    generalize hh : hist pre e.tid = t at hmay hfound
    have hjudged : ∃ l t', t = l ++ t' ∧ Judged m t' true := by
      obtain ⟨row, rfl⟩ | ⟨ma, rfl⟩ := hop
      · cases hmay with
        | early _ ho => cases ho
        | insert hj _ => exact ⟨[_, _], _, rfl, hj⟩
      · cases hmay with
        | early _ ho => cases ho
        | publish hj _ hatt =>
            cases hatt with
            | first => exact ⟨[_, _, _], _, rfl, hj⟩
            | second => exact ⟨[_, _, _, _], _, rfl, hj⟩
    obtain ⟨l, t', ht, hj⟩ := hjudged
    obtain ⟨g, pre', hg, hi, hlooks, hq⟩ := hfound l t' ht hj
    exact ⟨g, pre', m, hg, hi, hlooks, hq⟩

/-- **Nothing is recorded or published about a reading that has grown.** -/
theorem grown_unflagged (h : (system cfg).Run P w c) {i : Nat} {service : String}
    (hi : (i, true) ∈ growths service c.trace) {e : SysEvent K} (he : e ∈ c.trace)
    (htid : e.tid = i) :
    (∀ row, e.op ≠ .insertAnomaly row) ∧ ∀ ma, e.op ≠ .basicPublish (.anomaly ma) := by
  obtain ⟨g, hg, hgrowth⟩ := List.mem_filterMap.mp hi
  obtain ⟨preg, hg, _⟩ := h.origin_of_mem hg
  obtain ⟨pre, he, _⟩ := h.origin_of_mem he
  have hlooks : ∃ m, Looks g m ∧ g.tid = i ∧ grown g.before m = true := by
    unfold growth at hgrowth
    split at hgrowth
    · rename_i m s htag hop
      split at hgrowth
      · simp only [Option.some.injEq, Prod.mk.injEq] at hgrowth
        refine ⟨m, ⟨htag, ?_⟩, hgrowth⟩
        rw [hop]
        rfl
      · cases hgrowth
    · cases hgrowth
  obtain ⟨m, hlooks, hgi, hgrown⟩ := hlooks
  have hno : ¬ ((∃ row, e.op = .insertAnomaly row) ∨ ∃ ma, e.op = .basicPublish (.anomaly ma)) := by
    intro hop
    obtain ⟨g', pre', m', hg', hi', hlooks', hq⟩ := flagged_looked h he hop
    obtain rfl := looks_unique h hg hg' hlooks hlooks' (hi'.trans (htid.trans hgi.symm))
    obtain rfl : m' = m := Tag.cost.inj (hlooks'.1.symm.trans hlooks.1)
    rw [not_qualifies_of_grown hgrown] at hq
    cases hq
  exact ⟨fun row hop => hno (.inl ⟨row, hop⟩), fun ma hop => hno (.inr ⟨ma, hop⟩)⟩

/-! ## What the engine does about the verdict -/

/-- The calls for an anomaly that is traffic growth. -/
def isKept (ma : AnomalyMessage K) : Op K → Prop
  | .updateAnomaly id cl _ => id = ma.id ∧ cl = .legitimateTrafficGrowth
  | .settle _ _ => True
  | _ => False

/-- What a thread may call, if its message is an anomaly that is traffic growth. -/
def mayKeep (tag : Tag K) (_ : History K) (o : Op K) : Prop :=
  ∀ ma, tag = .anomaly ma → ma.classification = some .legitimateTrafficGrowth → isKept ma o

theorem handleAnomaly_growth (cfg : Decision.Config) {ma : AnomalyMessage K}
    (hgrowth : ma.classification = some .legitimateTrafficGrowth) :
    Decision.handleAnomaly cfg ma = call (.updateAnomaly ma.id .legitimateTrafficGrowth
      { ma.evidence with classificationReason := some .trafficExplains }) >>= fun _ => pure () := by
  rw [Decision.handleAnomaly_eq, Decision.classify, if_pos hgrowth]
  rfl

theorem program_keeps (cfg : Settings) (tag : Tag K) :
    (program cfg tag).Obeys (anyAnswer (mayKeep tag)) (fun _ _ => True) [] := by
  by_cases hkeeps : ∃ ma, tag = .anomaly ma ∧ ma.classification = some .legitimateTrafficGrowth
  · obtain ⟨ma, rfl, hgrowth⟩ := hkeeps
    refine (callback_obeys (R := fun _ _ => True) ?_ fun t r _ => ?_).mono fun _ _ _ => trivial
    · rw [handleAnomaly_growth _ hgrowth]
      refine obeys_call ?_ (fun _ => trivial) fun _ => trivial
      intro ma' hma' _
      obtain rfl := Tag.anomaly.inj hma'
      exact ⟨rfl, rfl⟩
    · exact fun _ _ _ => trivial
  -- the others are not bound
  · have hweak : (program cfg tag).Obeys (anyAnswer (mayKeep tag)) (Ends cfg tag) [] := by
      refine (program_obeys cfg tag).weaken (fun t o _ => ?_) fun _ _ _ hr => hr
      intro ma htag hgrowth
      exact absurd ⟨ma, htag, hgrowth⟩ hkeeps
    exact hweak.mono fun _ _ _ => trivial

theorem keepsVerdict (h : (system cfg).Run P w c) {ma : AnomalyMessage K}
    (hgrowth : ma.classification = some .legitimateTrafficGrowth) : KeepsVerdict c ma := by
  intro e he htag
  obtain ⟨pre, he, _⟩ := h.origin_of_mem he
  have hmay : mayKeep e.tag (hist pre e.tid) e.op := by
    refine System.Run.may (D := fun tag => anyAnswer (mayKeep tag)) (Q := fun _ _ _ => True) ?_ ?_ h he
    · intro c x w' tag p _ _ hs
      obtain ⟨_, rfl⟩ := start_starts hs
      exact program_keeps cfg tag
    · intro c i x tag o k _ _ _ _ ho
      obtain ⟨a, ha⟩ := exec_local (w := c.world) (x := x) ho
      dsimp only [system]
      rw [ha]
      rfl
  have hkept := hmay ma htag hgrowth
  generalize e.op = o at hkept
  refine ⟨?_, ?_, ?_⟩
  · intro row hx
    subst hx
    exact hkept
  · intro p hx
    subst hx
    exact hkept
  · intro id cl ev hx
    subst hx
    exact hkept.2

/-! ## The whole of it -/

/--
**Growth that traffic explains gets no verdict.**

In no run, from no state: after three readings in a row that have grown, nobody
records or publishes anything about them, and nothing of the service is recorded and
published as traffic growth at all. The engine would have kept that verdict.
-/
theorem growth_untold (h : (system cfg).Run P w c) {service : String} {i j k : Nat}
    (hgrown : [(k, true), (j, true), (i, true)] <:+: growths service c.trace) :
    ¬ GetsVerdict c service
      ∧ (∀ e ∈ c.trace, e.tid ∈ [i, j, k] →
        (∀ row, e.op ≠ .insertAnomaly row) ∧ ∀ ma, e.op ≠ .basicPublish (.anomaly ma))
      ∧ ∀ ma, ma.classification = some .legitimateTrafficGrowth → KeepsVerdict c ma := by
  refine ⟨?_, ?_, fun ma => keepsVerdict h⟩
  · intro hx
    obtain ⟨a, ma, _, hclass, ⟨e, he, hop⟩, -⟩ := hx
    obtain ⟨pre, he, _⟩ := h.origin_of_mem he
    have hcalls := calls_of_suffix h he
    rw [hop] at hcalls
    obtain ⟨m, f, id, now, _, _, hf, rfl, _⟩ := anomaly_inserted_by hcalls
    rw [show (f.row id now).classification = f.classification from rfl, hf.classification] at hclass
    cases hclass
  · intro e he htid
    refine grown_unflagged h (hgrown.subset ?_) he rfl
    simp only [List.mem_cons, List.not_mem_nil, or_false] at htid ⊢
    obtain hi | hj | hk := htid
    · exact .inr (.inr (congrArg (·, true) hi))
    · exact .inr (.inl (congrArg (·, true) hj))
    · exact .inl (congrArg (·, true) hk)

namespace Scenario

def traffic (rate : ℚ) : SysAct ℚ := .start (.traffic ⟨0, victim, rate⟩)

/-- The load generator is scaled up: requests and cost rise together, three readings in a row. -/
def surge : List (SysAct ℚ) :=
  [traffic 50] ++ calls 0 5 ++ [traffic 52] ++ calls 1 5 ++ [traffic 50] ++ calls 2 5 ++
    [traffic 52] ++ calls 3 5 ++ [traffic 50] ++ calls 4 5 ++ [traffic 500] ++ calls 5 5 ++
    [cost 10] ++ calls 6 8 ++ [cost 11] ++ calls 7 8 ++ [cost 10] ++ calls 8 8 ++
    [cost 11] ++ calls 9 8 ++ [cost 10] ++ calls 10 8 ++ [cost 100] ++ calls 11 8 ++
    [cost 1000] ++ calls 12 8 ++ [cost 10000] ++ calls 13 8

end Scenario

open Scenario in
/-- Three readings in a row of the surge have grown, and the verdict is not given. -/
theorem growth_untold_surge :
    ∃ c : SysConfig ℚ, [(13, true), (12, true), (11, true)] <:+: growths victim c.trace
      ∧ ¬ GetsVerdict c victim := by
  obtain ⟨c, hrun, hgrown⟩ := System.exists_run (S := system settings) (w := World.empty ℚ)
    (p := fun _ _ => true) (l := surge)
    (q := fun c => [(13, true), (12, true), (11, true)] <:+: growths victim c.trace)
    (by decide +kernel)
  exact ⟨c, by simpa using hgrown, (growth_untold hrun (by simpa using hgrown)).1⟩

open Scenario in
/-- **A surge that traffic explains is not told**: no anomaly is recorded. -/
theorem growth_surge_untold :
    ∃ c : SysConfig ℚ, (system settings).Run (fun _ _ => True) (World.empty ℚ) c
      ∧ [(13, true), (12, true), (11, true)] <:+: growths victim c.trace
      ∧ c.world.anomalies = [] ∧ ¬ GetsVerdict c victim := by
  obtain ⟨c, hrun, hcheck⟩ := System.exists_run (S := system settings) (w := World.empty ℚ)
    (p := fun _ _ => true) (l := surge)
    (q := fun c => decide ([(13, true), (12, true), (11, true)] <:+: growths victim c.trace)
      && c.world.anomalies.isEmpty && c.trace.all fun e => (publishedIn e).isNone)
    (by decide +kernel)
  simp only [Bool.and_eq_true, decide_eq_true_eq, List.isEmpty_iff, List.all_eq_true] at hcheck
  obtain ⟨⟨hgrown, hempty⟩, hquiet⟩ := hcheck
  refine ⟨c, hrun.mono fun _ _ _ => trivial, hgrown, hempty, ?_⟩
  intro h
  obtain ⟨a, ma, _, _, _, _, _, ⟨e, he, hop⟩, _⟩ := h
  have hnone := hquiet e he
  rw [publishedIn, hop] at hnone
  cases hnone

end HyperTrace.Proof
